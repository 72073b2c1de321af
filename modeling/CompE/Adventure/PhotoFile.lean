import CompE.Adventure.Photo
import CompE.Library.ByteFile

/-!
# Pictures on disk

`mp2photo` converts a 24-bit BMP file to a room photo (5:6:5 bits a pixel) or
an object image (2:2:2 bits); `read_photo` and `read_obj_image` read such files
into the game.  Both formats store their rows from the bottom.

`readPhoto_main` and `readObjImage_main` follow a picture through both: the
game has the top two bits of each component of the BMP's pixels, the rows from
the top, and bright yellow is transparent in objects.  Nothing but a proper BMP
file of the right size gets there.
-/

namespace CompE.Adventure

open CompE.Library.ByteFile

/-! ## Colors -/

/-- A pixel of a BMP file. -/
structure Color where
  r : UInt8
  g : UInt8
  b : UInt8

/-- 2:2:2 bits. -/
def Color.twoBits (c : Color) : UInt8 :=
  (c.r >>> 6) <<< 4 ||| (c.g >>> 6) <<< 2 ||| c.b >>> 6

/-- 5:6:5 bits. -/
def Color.fiveSixFive (c : Color) : UInt16 :=
  (c.r.toUInt16 >>> 3) <<< 11 ||| (c.g.toUInt16 >>> 2) <<< 5 |||
    c.b.toUInt16 >>> 3

/-- An object's pixel: any bright yellow is transparent. -/
def Color.objectPixel (c : Color) : UInt8 :=
  if c.twoBits = 0x3C then objClrTransp else c.twoBits

/-- What `read_photo` makes of a pixel. -/
def photoPixel (pixel : UInt16) : UInt8 :=
  ((pixel >>> 14) <<< 4 ||| ((pixel >>> 9) &&& 3) <<< 2 |||
    ((pixel >>> 3) &&& 3)).toUInt8

/-- No bit of the two is lost on the way. -/
theorem photoPixel_fiveSixFive (c : Color) :
    photoPixel c.fiveSixFive = c.twoBits := by
  apply UInt8.toBitVec_inj.1
  simp only [photoPixel, Color.fiveSixFive, Color.twoBits,
    UInt16.toBitVec_toUInt8, UInt16.toBitVec_or, UInt16.toBitVec_shiftLeft,
    UInt16.toBitVec_shiftRight, UInt16.toBitVec_and, UInt8.toBitVec_toUInt16,
    UInt8.toBitVec_or, UInt8.toBitVec_shiftLeft, UInt8.toBitVec_shiftRight]
  ext i hi
  have hBit : i = 0 ∨ i = 1 ∨ i = 2 ∨ i = 3 ∨ i = 4 ∨ i = 5 ∨ i = 6 ∨ i = 7 := by
    omega
  rcases hBit with rfl | rfl | rfl | rfl | rfl | rfl | rfl | rfl <;> simp

/-! ## `mp2photo.c` -/

/-- `bmp_header_t`: the fields that are looked at. -/
structure BmpHeader where
  pixelOffset : Nat
  imgWidth : Nat
  imgHeight : Nat
  planes : Nat
  bitsPerPixel : Nat
  compressionType : Nat
  imgSize : Nat

/-- A little-endian field of a structure in memory. -/
def fieldAt (bytes : List Byte) (place size : Nat) : Nat :=
  ofLe ((bytes.drop place).take size)

/-- The structure that `fread` fills. -/
def BmpHeader.ofBytes (bytes : List Byte) : BmpHeader where
  pixelOffset := fieldAt bytes 8 4
  imgWidth := fieldAt bytes 16 4
  imgHeight := fieldAt bytes 20 4
  planes := fieldAt bytes 24 2
  bitsPerPixel := fieldAt bytes 26 2
  compressionType := fieldAt bytes 28 4
  imgSize := fieldAt bytes 32 4

/-- `sizeof (bmp_header_t)`. -/
def bmpHeaderSize : Nat := 36

/-- `bmp_row_width`: rows are padded to four bytes. -/
def bmpRowWidth (imgWidth : Nat) : Nat := 4 * ((3 * imgWidth + 3) / 4)

/-- `bmp_header_check`. -/
def bmpHeaderCheck (file : List Byte) : Option BmpHeader :=
  (fread 2 file).bind fun magic =>
    if magic.1 ≠ [0x42, 0x4D] then none
    else (fread bmpHeaderSize magic.2).bind fun header =>
      let h := BmpHeader.ofBytes header.1
      if 4096 < h.imgWidth ∨ 4096 < h.imgHeight ∨ 1 ≠ h.planes ∨
          24 ≠ h.bitsPerPixel ∨ 0 ≠ h.compressionType then none
      else if h.imgSize ≠ bmpRowWidth h.imgWidth * h.imgHeight then none
      else some h

/-- `read_bmp_image_data`.  The offset of `fseek` is signed, and `fread` of an
item without bytes reads no item. -/
def readBmpImageData (file : List Byte) (h : BmpHeader) : Option (List Byte) :=
  if 2 ^ 31 ≤ h.pixelOffset then none
  else if h.imgSize = 0 then none
  else (fread h.imgSize (file.drop h.pixelOffset)).map Prod.fst

/-- The components of a pixel in the image data. -/
def pixelColor (imgWidth : Nat) (img : List Byte) (x y : Nat) : Color where
  r := img.getD (bmpRowWidth imgWidth * y + 3 * x + 2) 0
  g := img.getD (bmpRowWidth imgWidth * y + 3 * x + 1) 0
  b := img.getD (bmpRowWidth imgWidth * y + 3 * x) 0

/-- `vga_color`, as `WRITE_OBJECT_IMAGE` says. -/
def vgaColor (writeObjectImage : Bool) (c : Color) : List Byte :=
  if writeObjectImage then [c.objectPixel] else le 2 c.fiveSixFive.toNat

/-- `write_output_file`. -/
def writeOutputFile (writeObjectImage : Bool) (h : BmpHeader)
    (img : List Byte) : List Byte :=
  le 2 h.imgWidth ++ (le 2 h.imgHeight ++
    (List.range h.imgHeight).flatMap fun y =>
      (List.range h.imgWidth).flatMap fun x =>
        vgaColor writeObjectImage (pixelColor h.imgWidth img x y))

/-- `main` of `mp2photo.c`: its status and the output file, which is emptied
before the input is looked at. -/
def mp2photo (writeObjectImage : Bool) (bmp out : Option (List Byte)) :
    Nat × Option (List Byte) :=
  match bmp with
  | none => (2, out)
  | some file =>
      let data := (bmpHeaderCheck file).bind fun h =>
        (readBmpImageData file h).map fun img =>
          writeOutputFile writeObjectImage h img
      if data.isSome then (0, data) else (2, some [])

/-! ## `photo.c` -/

/-- `MAX_PHOTO_WIDTH` and `MAX_PHOTO_HEIGHT`. -/
def maxPhotoDim : Nat := 1024

/-- `MAX_OBJECT_WIDTH`. -/
def maxObjectWidth : Nat := 160

/-- `MAX_OBJECT_HEIGHT`. -/
def maxObjectHeight : Nat := 100

/-- `for (y = height; y-- > 0; ) for (x = 0; width > x; x++)`: one pixel of
`size` bytes for each place. -/
def readRows (size : Nat) (decode : List Byte → UInt8) (width height : Nat)
    (s : List Byte × (Nat → UInt8)) : Option (List Byte × (Nat → UInt8)) :=
  (List.range height).reverse.foldlM
    (fun s y => readRow size decode (width * y) width s) s

/-- The loops of `read_photo` and `read_obj_image`.  `mem` is what `malloc`
returns; the result has the width, the height and the pixels. -/
def readPixels (size : Nat) (decode : List Byte → UInt8)
    (maxWidth maxHeight : Nat) (mem : Nat → UInt8)
    (file : Option (List Byte)) : Option (Nat × Nat × (Nat → UInt8)) :=
  file.bind fun file =>
    (fread 4 file).bind fun hdr =>
      let width := fieldAt hdr.1 0 2
      let height := fieldAt hdr.1 2 2
      if maxWidth < width ∨ maxHeight < height then none
      else
        (readRows size decode width height (hdr.2, mem)).map fun s =>
          (width, height, s.2)

/-- `read_obj_image`. -/
def readObjImage (mem : Nat → UInt8) (file : Option (List Byte)) :
    Option Image :=
  (readPixels 1 (fun pixel => pixel.getD 0 0) maxObjectWidth maxObjectHeight
    mem file).map fun r => ⟨r.1, r.2.1, r.2.2⟩

/-- `read_photo`. -/
def readPhoto (mem : Nat → UInt8) (file : Option (List Byte)) : Option Photo :=
  (readPixels 2 (fun pixel => photoPixel (UInt16.ofNat (ofLe pixel)))
    maxPhotoDim maxPhotoDim mem file).map fun r => ⟨r.1, r.2.1, r.2.2⟩

/-! ## What the readers accept -/

/-- The pixels of the file of a picture: those of the top row are last. -/
theorem readRows_eq (size : Nat) (decode : List Byte → UInt8)
    (width height : Nat) (file : List Byte) (mem : Nat → UInt8) :
    readRows size decode width height (file, mem) =
      if size * (width * height) ≤ file.length then
        some (file.drop (size * (width * height)), fun k =>
          if k < width * height then
            decode (chunk size file
              (width * (height - 1 - k / width) + k % width))
          else mem k)
      else none := by
  induction height generalizing file mem with
  | zero =>
      rw [Nat.mul_zero, Nat.mul_zero, if_pos (Nat.zero_le _)]
      simp [readRows]
  | succ height ih =>
      have hArea : width * (height + 1) = width * height + width :=
        Nat.mul_succ width height
      have hBytes : size * (width * (height + 1)) =
          size * width + size * (width * height) := by
        rw [hArea, Nat.mul_add, Nat.add_comm]
      have hRows : readRows size decode width (height + 1) (file, mem) =
          (readRow size decode (width * height) width (file, mem)).bind
            (readRows size decode width height) := by
        rw [readRows, List.range_succ, List.reverse_append]
        rfl
      rw [hRows, readRow_eq]
      by_cases hFirst : size * width ≤ file.length
      · rw [if_pos hFirst, Option.bind_some, ih, List.length_drop]
        by_cases hAll : size * (width * (height + 1)) ≤ file.length
        · rw [if_pos (by omega), if_pos hAll]
          refine congrArg some (Prod.ext ?_ (funext fun k => ?_))
          · show (file.drop _).drop _ = _
            rw [List.drop_drop, hBytes]
          · dsimp only
            by_cases hLow : k < width * height
            · have hRow : k / width < height := by
                exact Nat.div_lt_of_lt_mul hLow
              have hBack : height + 1 - 1 - k / width =
                  (height - 1 - k / width) + 1 := by
                omega
              rw [if_pos hLow, if_pos (by omega), chunk_drop, hBack,
                Nat.mul_succ]
              exact congrArg (fun i => decode (chunk size file i)) (by omega)
            · rw [if_neg hLow]
              by_cases hTop : k < width * (height + 1)
              · have hRow : k / width = height := by
                  apply Nat.div_eq_of_lt_le
                  · rw [Nat.mul_comm]
                    omega
                  · rw [Nat.mul_comm]
                    exact hTop
                have hCol : k % width = k - width * height := by
                  have hSplit := Nat.div_add_mod k width
                  rw [hRow] at hSplit
                  omega
                rw [if_pos (by omega), if_pos hTop, hRow, hCol]
                simp
              · rw [if_neg (by omega), if_neg hTop]
        · rw [if_neg (by omega), if_neg hAll]
      · rw [if_neg hFirst, if_neg (by omega), Option.bind_none]

/-- The pixels that are read from a file, at their places. -/
def pixelsOf (size : Nat) (decode : List Byte → UInt8) (mem : Nat → UInt8)
    (file : List Byte) (k : Nat) : UInt8 :=
  let width := fieldAt file 0 2
  let height := fieldAt file 2 2
  if k < width * height then
    decode (chunk size (file.drop 4)
      (width * (height - 1 - k / width) + k % width))
  else mem k

/-- **What is read.**  A file is read if and only if its picture is not too
large and none of its pixels is missing.  What stands behind them is ignored,
and no place outside the picture is written. -/
theorem readPixels_eq (size : Nat) (decode : List Byte → UInt8)
    (maxWidth maxHeight : Nat) (mem : Nat → UInt8) (file : List Byte) :
    readPixels size decode maxWidth maxHeight mem (some file) =
      if fieldAt file 0 2 ≤ maxWidth ∧ fieldAt file 2 2 ≤ maxHeight ∧
          4 + size * (fieldAt file 0 2 * fieldAt file 2 2) ≤ file.length then
        some (fieldAt file 0 2, fieldAt file 2 2, pixelsOf size decode mem file)
      else none := by
  rw [readPixels, Option.bind_some, fread]
  by_cases hHeader : 4 ≤ file.length
  · have hWidth : fieldAt (file.take 4) 0 2 = fieldAt file 0 2 := by
      rw [fieldAt, fieldAt, List.drop_zero, List.drop_zero, List.take_take]
      rfl
    have hHeight : fieldAt (file.take 4) 2 2 = fieldAt file 2 2 := by
      rw [fieldAt, fieldAt, List.drop_take, List.take_take]
      rfl
    rw [if_pos hHeader, Option.bind_some, hWidth, hHeight]
    by_cases hSize : maxWidth < fieldAt file 0 2 ∨ maxHeight < fieldAt file 2 2
    · rw [if_pos hSize, if_neg (by omega)]
    · rw [if_neg hSize, readRows_eq, List.length_drop]
      by_cases hPixels : size * (fieldAt file 0 2 * fieldAt file 2 2) ≤
          file.length - 4
      · rw [if_pos hPixels, if_pos (by omega)]
        rfl
      · rw [if_neg hPixels, if_neg (by omega)]
        rfl
  · rw [if_neg hHeader, if_neg (by omega)]
    rfl

/-! ## What the converter accepts -/

def bmpOffset (file : List Byte) : Nat := fieldAt file 10 4

def bmpWidth (file : List Byte) : Nat := fieldAt file 18 4

def bmpHeight (file : List Byte) : Nat := fieldAt file 22 4

/-- A 24-bit BMP file without compression: its header, and where its pixels
are. -/
structure IsBmp (file : List Byte) : Prop where
  header : 2 + bmpHeaderSize ≤ file.length
  magic : file.take 2 = [0x42, 0x4D]
  width : 0 < bmpWidth file ∧ bmpWidth file ≤ 4096
  height : 0 < bmpHeight file ∧ bmpHeight file ≤ 4096
  planes : fieldAt file 26 2 = 1
  bitsPerPixel : fieldAt file 28 2 = 24
  uncompressed : fieldAt file 30 4 = 0
  imageSize : fieldAt file 34 4 = bmpRowWidth (bmpWidth file) * bmpHeight file
  offset : bmpOffset file < 2 ^ 31
  data : bmpOffset file + bmpRowWidth (bmpWidth file) * bmpHeight file ≤
    file.length

/-- A pixel of the picture, `y` rows under its top. -/
def bmpColor (file : List Byte) (x y : Nat) : Color :=
  let place := bmpOffset file +
    (bmpRowWidth (bmpWidth file) * (bmpHeight file - 1 - y) + 3 * x)
  { r := file.getD (place + 2) 0
    g := file.getD (place + 1) 0
    b := file.getD place 0 }

private theorem fieldAt_take_drop (file : List Byte) {n m place size : Nat}
    (h : place + size ≤ m) :
    fieldAt ((file.drop n).take m) place size = fieldAt file (n + place) size := by
  rw [fieldAt, fieldAt, List.drop_take, List.take_take, List.drop_drop,
    Nat.min_eq_left (by omega)]

/-- The header that the converter has read. -/
def headerOf (file : List Byte) : BmpHeader :=
  BmpHeader.ofBytes ((file.drop 2).take bmpHeaderSize)

private theorem checks_eq_some {α : Type} {bad bad' : Prop} [Decidable bad]
    [Decidable bad'] {a b : α} :
    (if bad then none else if bad' then none else some a) = some b ↔
      b = a ∧ ¬ bad ∧ ¬ bad' := by
  by_cases hBad : bad
  · simp [hBad]
  · by_cases hBad' : bad'
    · simp [hBad, hBad']
    · simp [hBad, hBad', eq_comm]

private theorem bmpHeaderCheck_eq_some {file : List Byte} {h : BmpHeader} :
    bmpHeaderCheck file = some h ↔
      h = headerOf file ∧ 2 + bmpHeaderSize ≤ file.length ∧
        file.take 2 = [0x42, 0x4D] ∧ h.imgWidth ≤ 4096 ∧ h.imgHeight ≤ 4096 ∧
          h.planes = 1 ∧ h.bitsPerPixel = 24 ∧ h.compressionType = 0 ∧
            h.imgSize = bmpRowWidth h.imgWidth * h.imgHeight := by
  rw [bmpHeaderCheck, fread]
  by_cases hTwo : 2 ≤ file.length
  · rw [if_pos hTwo, Option.bind_some]
    by_cases hMagic : file.take 2 = [0x42, 0x4D]
    · rw [if_neg (not_not_intro hMagic), fread, List.length_drop]
      by_cases hHeader : bmpHeaderSize ≤ file.length - 2
      · rw [if_pos hHeader, Option.bind_some]
        refine checks_eq_some.trans ?_
        constructor
        · rintro ⟨hHere, hPlain, hSize⟩
          obtain rfl : h = headerOf file := hHere
          refine ⟨rfl, by omega, hMagic, ?_⟩
          simp only [not_or, Nat.not_lt, ne_eq, not_not] at hPlain hSize
          obtain ⟨hWidth, hHeight, hPlanes, hBits, hPlainly⟩ := hPlain
          exact ⟨hWidth, hHeight, hPlanes.symm, hBits.symm, hPlainly.symm, hSize⟩
        · rintro ⟨rfl, -, -, hWidth, hHeight, hPlanes, hBits, hPlainly, hSize⟩
          refine ⟨rfl, ?_, not_not_intro hSize⟩
          simp only [not_or, Nat.not_lt, ne_eq, not_not]
          exact ⟨hWidth, hHeight, hPlanes.symm, hBits.symm, hPlainly.symm⟩
      · rw [if_neg hHeader, Option.bind_none]
        constructor
        · intro h; cases h
        · intro h; omega
    · rw [if_pos hMagic]
      constructor
      · intro h; cases h
      · intro h; exact absurd h.2.2.1 hMagic
  · rw [if_neg hTwo, Option.bind_none]
    constructor
    · intro h; cases h
    · intro h; omega

/-- The converter reads the pixels of a BMP file, and of nothing else. -/
theorem readImage_eq_some {file img : List Byte} {h : BmpHeader} :
    bmpHeaderCheck file = some h ∧ readBmpImageData file h = some img ↔
      IsBmp file ∧ h = headerOf file ∧ img = (file.drop (bmpOffset file)).take
        (bmpRowWidth (bmpWidth file) * bmpHeight file) := by
  have hField {place size : Nat} (hFits : place + size ≤ bmpHeaderSize) :
      fieldAt ((file.drop 2).take bmpHeaderSize) place size =
        fieldAt file (2 + place) size := fieldAt_take_drop file hFits
  have hOffset : (headerOf file).pixelOffset = bmpOffset file :=
    hField (by decide)
  have hWidth : (headerOf file).imgWidth = bmpWidth file := hField (by decide)
  have hHeight : (headerOf file).imgHeight = bmpHeight file :=
    hField (by decide)
  have hPlanes : (headerOf file).planes = fieldAt file 26 2 :=
    hField (by decide)
  have hBits : (headerOf file).bitsPerPixel = fieldAt file 28 2 :=
    hField (by decide)
  have hPlainly : (headerOf file).compressionType = fieldAt file 30 4 :=
    hField (by decide)
  have hSize : (headerOf file).imgSize = fieldAt file 34 4 := hField (by decide)
  rw [bmpHeaderCheck_eq_some]
  constructor
  · rintro ⟨⟨rfl, hLength, hMagic, hRest⟩, hData⟩
    rw [hWidth, hHeight, hPlanes, hBits, hPlainly, hSize] at hRest
    obtain ⟨hW, hH, hP, hB, hC, hS⟩ := hRest
    rw [readBmpImageData, hOffset, hSize, hS] at hData
    split at hData
    · cases hData
    · rename_i hSeeks
      split at hData
      · cases hData
      · rename_i hSome
        rw [fread, List.length_drop] at hData
        split at hData
        · rename_i hFits
          obtain ⟨hRow, hRows⟩ := Nat.mul_ne_zero_iff.1 hSome
          have hPos : bmpWidth file ≠ 0 := by
            rintro hZero
            rw [hZero] at hRow
            exact hRow rfl
          refine ⟨⟨hLength, hMagic, ?_, ?_, hP, hB, hC, hS, ?_, ?_⟩, rfl, ?_⟩
          · omega
          · omega
          · omega
          · omega
          · exact (Option.some.inj hData).symm
        · cases hData
  · rintro ⟨hBmp, rfl, rfl⟩
    have hRow : bmpRowWidth (bmpWidth file) ≠ 0 := by
      have hWide := hBmp.width
      rw [bmpRowWidth]
      omega
    have hSome : bmpRowWidth (bmpWidth file) * bmpHeight file ≠ 0 :=
      Nat.mul_ne_zero hRow (Nat.pos_iff_ne_zero.1 hBmp.height.1)
    have hSeeks := hBmp.offset
    have hData := hBmp.data
    constructor
    · rw [hWidth, hHeight, hPlanes, hBits, hPlainly, hSize]
      exact ⟨rfl, hBmp.header, hBmp.magic, hBmp.width.2, hBmp.height.2,
        hBmp.planes, hBmp.bitsPerPixel, hBmp.uncompressed, hBmp.imageSize⟩
    · rw [readBmpImageData, hOffset, hSize, hBmp.imageSize,
        if_neg (by omega), if_neg hSome, fread, List.length_drop,
        if_pos (by omega)]
      rfl

/-- **The converter accepts exactly the BMP files.**  For anything else it ends
with status 2 and an output file without bytes. -/
theorem mp2photo_eq (writeObjectImage : Bool) (file : List Byte)
    (out : Option (List Byte)) :
    (IsBmp file → mp2photo writeObjectImage (some file) out =
      (0, some (writeOutputFile writeObjectImage (headerOf file)
        ((file.drop (bmpOffset file)).take
          (bmpRowWidth (bmpWidth file) * bmpHeight file))))) ∧
      (¬ IsBmp file → mp2photo writeObjectImage (some file) out =
        (2, some [])) := by
  constructor
  · intro hBmp
    obtain ⟨hHeader, hData⟩ := readImage_eq_some.2 ⟨hBmp, rfl, rfl⟩
    simp only [mp2photo, hHeader, hData, Option.bind_some, Option.map_some]
    rfl
  · intro hNot
    have hNone : (bmpHeaderCheck file).bind (fun h =>
        (readBmpImageData file h).map fun img =>
          writeOutputFile writeObjectImage h img) = none := by
      cases hHeader : bmpHeaderCheck file with
      | none => rfl
      | some h =>
          cases hData : readBmpImageData file h with
          | none => rw [Option.bind_some, hData]; rfl
          | some img => exact absurd (readImage_eq_some.1 ⟨hHeader, hData⟩).1 hNot
    simp only [mp2photo, hNone]
    rfl

/-! ## Through both -/

private theorem length_vgaColor (writeObjectImage : Bool) (c : Color) :
    (vgaColor writeObjectImage c).length = if writeObjectImage then 1 else 2 := by
  cases writeObjectImage with
  | false => exact length_le 2 _
  | true => rfl

section Written

variable (size : Nat) {writeObjectImage : Bool} {file : List Byte}
  (hSize : ∀ c, (vgaColor writeObjectImage c).length = size) (img : List Byte)

include hSize

private theorem length_row (w y : Nat) :
    ((List.range w).flatMap fun x =>
      vgaColor writeObjectImage (pixelColor w img x y)).length = size * w := by
  rw [length_records fun x _ => hSize _, List.length_range]

/-- A pixel of a file that was written. -/
theorem chunk_rows {w h x y : Nat} (hx : x < w) (hy : y < h) :
    chunk size ((List.range h).flatMap fun y => (List.range w).flatMap fun x =>
        vgaColor writeObjectImage (pixelColor w img x y)) (w * y + x) =
      vgaColor writeObjectImage (pixelColor w img x y) := by
  have hRow := chunk_records (fun y _ => length_row size hSize img w y) []
    (i := y) (by rwa [List.length_range] : y < (List.range h).length)
  have hPixel := chunk_records
    (f := fun x => vgaColor writeObjectImage (pixelColor w img x y))
    (fun x _ => hSize _) [] (i := x)
    (by rwa [List.length_range] : x < (List.range w).length)
  rw [List.append_nil, List.getElem_range] at hRow hPixel
  rw [← chunk_chunk _ y hx, hRow, hPixel]

/-- What is read back from a file that was written. -/
theorem readPixels_written (decode : List Byte → UInt8)
    (maxWidth maxHeight : Nat) (mem : Nat → UInt8) {h : BmpHeader}
    (hWidth : h.imgWidth ≤ 4096) (hHeight : h.imgHeight ≤ 4096) :
    readPixels size decode maxWidth maxHeight mem
        (some (writeOutputFile writeObjectImage h img)) =
      if h.imgWidth ≤ maxWidth ∧ h.imgHeight ≤ maxHeight then
        some (h.imgWidth, h.imgHeight, fun k =>
          if k < h.imgWidth * h.imgHeight then
            decode (vgaColor writeObjectImage (pixelColor h.imgWidth img
              (k % h.imgWidth) (h.imgHeight - 1 - k / h.imgWidth)))
          else mem k)
      else none := by
  let body := (List.range h.imgHeight).flatMap fun y =>
    (List.range h.imgWidth).flatMap fun x =>
      vgaColor writeObjectImage (pixelColor h.imgWidth img x y)
  have hFile : writeOutputFile writeObjectImage h img =
      le 2 h.imgWidth ++ (le 2 h.imgHeight ++ body) := rfl
  have hW : fieldAt (writeOutputFile writeObjectImage h img) 0 2 =
      h.imgWidth := by
    rw [hFile, fieldAt, List.drop_zero, List.take_left' (length_le 2 _)]
    exact ofLe_le (by omega)
  have hDrop : (writeOutputFile writeObjectImage h img).drop 2 =
      le 2 h.imgHeight ++ body := by
    rw [hFile, List.drop_left' (length_le 2 _)]
  have hH : fieldAt (writeOutputFile writeObjectImage h img) 2 2 =
      h.imgHeight := by
    rw [fieldAt, hDrop, List.take_left' (length_le 2 _)]
    exact ofLe_le (by omega)
  have hBody : (writeOutputFile writeObjectImage h img).drop 4 = body := by
    have hTwice : (writeOutputFile writeObjectImage h img).drop 4 =
        ((writeOutputFile writeObjectImage h img).drop 2).drop 2 := by
      rw [List.drop_drop]
    rw [hTwice, hDrop, List.drop_left' (length_le 2 _)]
  have hLength : (writeOutputFile writeObjectImage h img).length =
      4 + size * (h.imgWidth * h.imgHeight) := by
    have hRows : body.length = size * h.imgWidth * h.imgHeight := by
      rw [length_records fun y _ => length_row size hSize img _ y,
        List.length_range]
    rw [hFile, List.length_append, List.length_append, length_le, length_le,
      hRows, Nat.mul_assoc]
    omega
  rw [readPixels_eq, hW, hH, hLength]
  by_cases hLimits : h.imgWidth ≤ maxWidth ∧ h.imgHeight ≤ maxHeight
  · rw [if_pos hLimits, if_pos ⟨hLimits.1, hLimits.2, Nat.le_refl _⟩]
    refine congrArg (fun img => some (h.imgWidth, h.imgHeight, img))
      (funext fun k => ?_)
    rw [pixelsOf, hW, hH, hBody]
    by_cases hInside : k < h.imgWidth * h.imgHeight
    · have hRow : k / h.imgWidth < h.imgHeight := Nat.div_lt_of_lt_mul hInside
      have hCol : k % h.imgWidth < h.imgWidth :=
        Nat.mod_lt _ (Nat.pos_of_mul_pos_right (Nat.zero_lt_of_lt hInside))
      have hBack : h.imgHeight - 1 - k / h.imgWidth < h.imgHeight := by
        generalize k / h.imgWidth = y at hRow ⊢
        omega
      rw [if_pos hInside, if_pos hInside, chunk_rows size hSize img hCol hBack]
    · rw [if_neg hInside, if_neg hInside]
  · rw [if_neg hLimits, if_neg fun h => hLimits ⟨h.1, h.2.1⟩]

end Written

/-- The image data at a pixel's place; the place is inside. -/
theorem pixelColor_image {file : List Byte} (hBmp : IsBmp file) {x y : Nat}
    (hx : x < bmpWidth file) (hy : y < bmpHeight file) :
    pixelColor (bmpWidth file) ((file.drop (bmpOffset file)).take
        (bmpRowWidth (bmpWidth file) * bmpHeight file)) x
        (bmpHeight file - 1 - y) = bmpColor file x y := by
  have hData := hBmp.data
  have hRow : 3 * x + 2 < bmpRowWidth (bmpWidth file) := by
    rw [bmpRowWidth]
    omega
  have hPlace : bmpRowWidth (bmpWidth file) * (bmpHeight file - 1 - y) +
      bmpRowWidth (bmpWidth file) ≤
        bmpRowWidth (bmpWidth file) * bmpHeight file := by
    rw [← Nat.mul_succ]
    exact Nat.mul_le_mul_left _ (by omega)
  have hByte : ∀ i, i < bmpRowWidth (bmpWidth file) * bmpHeight file →
      ((file.drop (bmpOffset file)).take
        (bmpRowWidth (bmpWidth file) * bmpHeight file)).getD i 0 =
      file.getD (bmpOffset file + i) 0 := by
    intro i hi
    simp [hi]
  rw [pixelColor, bmpColor, hByte _ (by omega), hByte _ (by omega),
    hByte _ (by omega)]
  simp only [Nat.add_assoc]

/-- The pixels of a BMP file in the order of the game. -/
def bmpPixels (pixel : Color → UInt8) (mem : Nat → UInt8) (file : List Byte)
    (k : Nat) : UInt8 :=
  if k < bmpWidth file * bmpHeight file then
    pixel (bmpColor file (k % bmpWidth file) (k / bmpWidth file))
  else mem k

/-- A picture through the converter and a reader. -/
theorem readPixels_mp2photo {size : Nat} {writeObjectImage : Bool}
    (decode : List Byte → UInt8) (pixel : Color → UInt8)
    (hSize : ∀ c, (vgaColor writeObjectImage c).length = size)
    (hPixel : ∀ c, decode (vgaColor writeObjectImage c) = pixel c)
    (maxWidth maxHeight : Nat) (mem : Nat → UInt8) (file : List Byte)
    (out : Option (List Byte)) (r : Nat × Nat × (Nat → UInt8)) :
    readPixels size decode maxWidth maxHeight mem
        (mp2photo writeObjectImage (some file) out).2 = some r ↔
      IsBmp file ∧ bmpWidth file ≤ maxWidth ∧ bmpHeight file ≤ maxHeight ∧
        r = (bmpWidth file, bmpHeight file, bmpPixels pixel mem file) := by
  obtain ⟨hGood, hBad⟩ := mp2photo_eq writeObjectImage file out
  by_cases hBmp : IsBmp file
  · have hWidth : (headerOf file).imgWidth = bmpWidth file :=
      fieldAt_take_drop file (by decide)
    have hHeight : (headerOf file).imgHeight = bmpHeight file :=
      fieldAt_take_drop file (by decide)
    rw [hGood hBmp, readPixels_written size hSize _ decode maxWidth maxHeight mem
      (hWidth ▸ hBmp.width.2) (hHeight ▸ hBmp.height.2), hWidth, hHeight]
    by_cases hLimits : bmpWidth file ≤ maxWidth ∧ bmpHeight file ≤ maxHeight
    · have hPixels : (fun k => if k < bmpWidth file * bmpHeight file then
            decode (vgaColor writeObjectImage (pixelColor (bmpWidth file)
              ((file.drop (bmpOffset file)).take
                (bmpRowWidth (bmpWidth file) * bmpHeight file))
              (k % bmpWidth file) (bmpHeight file - 1 - k / bmpWidth file)))
          else mem k) = bmpPixels pixel mem file := by
        funext k
        rw [bmpPixels]
        by_cases hInside : k < bmpWidth file * bmpHeight file
        · rw [if_pos hInside, if_pos hInside, hPixel, pixelColor_image hBmp
            (Nat.mod_lt _ hBmp.width.1) (Nat.div_lt_of_lt_mul hInside)]
        · rw [if_neg hInside, if_neg hInside]
      rw [if_pos hLimits, hPixels]
      constructor
      · intro h
        exact ⟨hBmp, hLimits.1, hLimits.2, (Option.some.inj h).symm⟩
      · rintro ⟨-, -, -, rfl⟩
        rfl
    · rw [if_neg hLimits]
      constructor
      · intro h; cases h
      · intro h; exact absurd ⟨h.2.1, h.2.2.1⟩ hLimits
  · rw [hBad hBmp]
    constructor
    · intro h; cases h
    · intro h; exact absurd h.1 hBmp

/-- The photo that the game has of a BMP file. -/
def bmpPhoto (mem : Nat → UInt8) (file : List Byte) : Photo :=
  ⟨bmpWidth file, bmpHeight file, bmpPixels Color.twoBits mem file⟩

/-- The object image that the game has of a BMP file. -/
def bmpImage (mem : Nat → UInt8) (file : List Byte) : Image :=
  ⟨bmpWidth file, bmpHeight file, bmpPixels Color.objectPixel mem file⟩

private theorem readPhoto_eq_some (mem : Nat → UInt8) (file : List Byte)
    (out : Option (List Byte)) (p : Photo) :
    readPhoto mem (mp2photo false (some file) out).2 = some p ↔
      IsBmp file ∧ bmpWidth file ≤ maxPhotoDim ∧
        bmpHeight file ≤ maxPhotoDim ∧ p = bmpPhoto mem file := by
  have hPixel : ∀ c, photoPixel (UInt16.ofNat (ofLe (vgaColor false c))) =
      c.twoBits := by
    intro c
    have hValue : ofLe (le 2 c.fiveSixFive.toNat) = c.fiveSixFive.toNat :=
      ofLe_le c.fiveSixFive.toNat_lt
    rw [← photoPixel_fiveSixFive, vgaColor, if_neg Bool.false_ne_true, hValue,
      UInt16.ofNat_toNat]
  have hRead := readPixels_mp2photo
    (fun pixel => photoPixel (UInt16.ofNat (ofLe pixel))) Color.twoBits
    (length_vgaColor false) hPixel maxPhotoDim maxPhotoDim mem file out
  rw [readPhoto, Option.map_eq_some_iff]
  constructor
  · rintro ⟨r, hr, rfl⟩
    obtain ⟨hBmp, hWidth, hHeight, rfl⟩ := (hRead r).1 hr
    exact ⟨hBmp, hWidth, hHeight, rfl⟩
  · rintro ⟨hBmp, hWidth, hHeight, rfl⟩
    exact ⟨_, (hRead _).2 ⟨hBmp, hWidth, hHeight, rfl⟩, rfl⟩

private theorem readObjImage_eq_some (mem : Nat → UInt8) (file : List Byte)
    (out : Option (List Byte)) (im : Image) :
    readObjImage mem (mp2photo true (some file) out).2 = some im ↔
      IsBmp file ∧ bmpWidth file ≤ maxObjectWidth ∧
        bmpHeight file ≤ maxObjectHeight ∧ im = bmpImage mem file := by
  have hRead := readPixels_mp2photo (fun pixel => pixel.getD 0 0)
    Color.objectPixel (length_vgaColor true) (fun _ => rfl) maxObjectWidth
    maxObjectHeight mem file out
  rw [readObjImage, Option.map_eq_some_iff]
  constructor
  · rintro ⟨r, hr, rfl⟩
    obtain ⟨hBmp, hWidth, hHeight, rfl⟩ := (hRead r).1 hr
    exact ⟨hBmp, hWidth, hHeight, rfl⟩
  · rintro ⟨hBmp, hWidth, hHeight, rfl⟩
    exact ⟨_, (hRead _).2 ⟨hBmp, hWidth, hHeight, rfl⟩, rfl⟩

/--
**Pictures survive the trip.**  Whatever bytes the converter is given, the game
gets a picture from its output if and only if they are a BMP file whose picture
is not too large; then it has the picture's pixels, with the top two bits of
each component (in an object, bright yellow is transparent), and has written to
no place outside of them.
-/
theorem pictures_read (mem : Nat → UInt8) (file : List Byte)
    (out : Option (List Byte)) :
    (∀ p, readPhoto mem (mp2photo false (some file) out).2 = some p ↔
      IsBmp file ∧ bmpWidth file ≤ maxPhotoDim ∧
        bmpHeight file ≤ maxPhotoDim ∧ p = bmpPhoto mem file) ∧
      ∀ im, readObjImage mem (mp2photo true (some file) out).2 = some im ↔
        IsBmp file ∧ bmpWidth file ≤ maxObjectWidth ∧
          bmpHeight file ≤ maxObjectHeight ∧ im = bmpImage mem file :=
  ⟨readPhoto_eq_some mem file out, readObjImage_eq_some mem file out⟩

/-! ## On the screen -/

private theorem twoBits_ne_transp (c : Color) : c.twoBits ≠ objClrTransp := by
  intro h
  have hBit := congrArg (fun v : UInt8 => v.toBitVec.getLsbD 6) h
  simp [Color.twoBits, objClrTransp] at hBit

/-- What an object's BMP file shows at a place of the map. -/
def bmpObjectAt (x y : Nat) (file : List Byte) (px py : Int) : Option UInt8 :=
  if x ≤ px ∧ px < x + bmpWidth file ∧ y ≤ py ∧ py < y + bmpHeight file then
    let c := bmpColor file (px - x).toNat (py - y).toNat
    if c.twoBits = 0x3C then none else some c.twoBits
  else none

/-- What the BMP files of a room and its objects show at a place of the map. -/
def bmpScene (room : List Byte) (objects : List (Placed × List Byte))
    (px py : Int) : UInt8 :=
  objects.foldl (fun v o => (bmpObjectAt o.1.x o.1.y o.2 px py).getD v)
    (bmpColor room px.toNat py.toNat).twoBits

/-- A pixel of a picture in the order of the game. -/
theorem bmpPixels_at (pixel : Color → UInt8) (mem : Nat → UInt8)
    (file : List Byte) {x y : Nat} (hx : x < bmpWidth file)
    (hy : y < bmpHeight file) :
    bmpPixels pixel mem file (bmpWidth file * y + x) =
      pixel (bmpColor file x y) := by
  have hInside : bmpWidth file * y + x < bmpWidth file * bmpHeight file := by
    calc bmpWidth file * y + x < bmpWidth file * y + bmpWidth file := by omega
      _ = bmpWidth file * (y + 1) := (Nat.mul_succ _ _).symm
      _ ≤ bmpWidth file * bmpHeight file := Nat.mul_le_mul_left _ hy
  have hCol : (bmpWidth file * y + x) % bmpWidth file = x := by
    rw [Nat.mul_add_mod, Nat.mod_eq_of_lt hx]
  have hRow : (bmpWidth file * y + x) / bmpWidth file = y := by
    rw [Nat.mul_add_div (Nat.zero_lt_of_lt hx), Nat.div_eq_of_lt hx,
      Nat.add_zero]
  rw [bmpPixels, if_pos hInside, hCol, hRow]

private theorem pixel_bmpImage (mem : Nat → UInt8) (file : List Byte) (obj : Placed)
    (hImage : obj.img = bmpImage mem file) (px py : Int) :
    obj.pixel px py = bmpObjectAt obj.x obj.y file px py := by
  rw [Placed.pixel, hImage]
  show (if obj.x ≤ px ∧ px < obj.x + bmpWidth file ∧ obj.y ≤ py ∧
    py < obj.y + bmpHeight file then _ else none) = _
  rw [bmpObjectAt]
  by_cases hInside : obj.x ≤ px ∧ px < obj.x + bmpWidth file ∧ obj.y ≤ py ∧
      py < obj.y + bmpHeight file
  · obtain ⟨col, hCol⟩ := Int.eq_ofNat_of_zero_le (Int.sub_nonneg.2 hInside.1)
    obtain ⟨row, hRow⟩ :=
      Int.eq_ofNat_of_zero_le (Int.sub_nonneg.2 hInside.2.2.1)
    have hPlace : ((row : Int) * bmpWidth file + col).toNat =
        bmpWidth file * row + col := by
      rw [← Int.natCast_mul, ← Int.natCast_add, Int.toNat_natCast, Nat.mul_comm]
    have hPixel : (bmpImage mem file).img (bmpWidth file * row + col) =
        (bmpColor file col row).objectPixel :=
      bmpPixels_at Color.objectPixel mem file (by omega) (by omega)
    rw [if_pos hInside, if_pos hInside, hCol, hRow]
    show (if (bmpImage mem file).img ((row : Int) * bmpWidth file + col).toNat ≠
        objClrTransp then
      some ((bmpImage mem file).img ((row : Int) * bmpWidth file + col).toNat)
      else none) = if (bmpColor file col row).twoBits = 0x3C then none else _
    rw [hPlace, hPixel, Color.objectPixel]
    by_cases hYellow : (bmpColor file col row).twoBits = 0x3C
    · rw [if_pos hYellow, if_pos hYellow, if_neg (not_not_intro rfl)]
    · rw [if_neg hYellow, if_neg hYellow, if_pos (twoBits_ne_transp _)]
      rfl
  · rw [if_neg hInside, if_neg hInside]

/-- The files of the objects that are drawn. -/
def DrawnFrom (objects : List (Placed × List Byte)) : Prop :=
  ∀ o ∈ objects, ∃ mem out,
    readObjImage mem (mp2photo true (some o.2) out).2 = some o.1.img

private theorem paint_bmp {objects : List (Placed × List Byte)} (h : DrawnFrom objects)
    (px py : Int) (v : UInt8) :
    paint (objects.map Prod.fst) px py v =
      objects.foldl (fun v o => (bmpObjectAt o.1.x o.1.y o.2 px py).getD v) v := by
  induction objects generalizing v with
  | nil => rfl
  | cons o objects ih =>
      obtain ⟨mem, out, hRead⟩ := h o List.mem_cons_self
      obtain ⟨-, -, -, hImage⟩ := (readObjImage_eq_some mem o.2 out _).1 hRead
      have hRest : DrawnFrom objects := fun o ho =>
        h o (List.mem_cons_of_mem _ ho)
      have hHere := pixel_bmpImage mem o.2 o.1 hImage px py
      rw [List.foldl_cons, ← hHere, ← ih hRest]
      rfl

private theorem pixelAt_bmp {view : Photo} {room : List Byte} {mem : Nat → UInt8}
    {out : Option (List Byte)}
    (hView : readPhoto mem (mp2photo false (some room) out).2 = some view)
    {objects : List (Placed × List Byte)} (hObjects : DrawnFrom objects)
    {px py : Int} (hCol : 0 ≤ px ∧ px < view.width)
    (hRow : 0 ≤ py ∧ py < view.height) :
    pixelAt view (objects.map Prod.fst) px py = bmpScene room objects px py := by
  obtain ⟨-, -, -, rfl⟩ := (readPhoto_eq_some mem room out view).1 hView
  obtain ⟨col, rfl⟩ := Int.eq_ofNat_of_zero_le hCol.1
  obtain ⟨row, rfl⟩ := Int.eq_ofNat_of_zero_le hRow.1
  have hPlace : ((bmpWidth room : Int) * row + col).toNat =
      bmpWidth room * row + col := by
    rw [← Int.natCast_mul, ← Int.natCast_add, Int.toNat_natCast]
  have hPixel : (bmpPhoto mem room).img (bmpWidth room * row + col) =
      (bmpColor room col row).twoBits :=
    bmpPixels_at Color.twoBits mem room (Int.ofNat_lt.1 hCol.2)
      (Int.ofNat_lt.1 hRow.2)
  rw [pixelAt, paint_bmp hObjects, bmpScene]
  show List.foldl _ ((bmpPhoto mem room).img
    ((bmpWidth room : Int) * row + col).toNat) objects = _
  rw [hPlace, hPixel]
  rfl

/--
**From the pictures to the screen.**  In a room whose photo and objects were
converted from BMP files, each line that is drawn shows, pixel by pixel, the
topmost object's color that is not bright yellow, or else the room's, in two
bits a component.
-/
theorem drawn_from_bmps {view : Photo} {room : List Byte} {mem : Nat → UInt8}
    {out : Option (List Byte)}
    (hView : readPhoto mem (mp2photo false (some room) out).2 = some view)
    {objects : List (Placed × List Byte)} (hObjects : DrawnFrom objects) :
    (∀ x y j, j < scrollXDim → 0 ≤ x + (j : Int) → x + j < view.width →
      0 ≤ y → y < (view.height : Int) →
        fillHorizBuffer x y view (objects.map Prod.fst) j =
          bmpScene room objects (x + j) y) ∧
      ∀ x y j, j < scrollYDim → 0 ≤ y + (j : Int) → y + j < view.height →
        0 ≤ x → x < (view.width : Int) →
          fillVertBuffer x y view (objects.map Prod.fst) j =
            bmpScene room objects x (y + j) := by
  constructor
  · intro x y j hj hLow hHigh hTop hBottom
    rw [fillHorizBuffer_apply view _ x y hj hLow hHigh]
    exact pixelAt_bmp hView hObjects ⟨hLow, hHigh⟩ ⟨hTop, hBottom⟩
  · intro x y j hj hLow hHigh hLeft hRight
    rw [fillVertBuffer_apply view _ x y hj hLow hHigh]
    exact pixelAt_bmp hView hObjects ⟨hLeft, hRight⟩ ⟨hLow, hHigh⟩

/-- A picture of two by two pixels: blue and bright yellow over red and
white. -/
def smallBmp : List Byte :=
  [0x42, 0x4D, 54, 0, 0, 0, 0, 0, 0, 0, 38, 0, 0, 0, 40, 0, 0, 0,
    2, 0, 0, 0, 2, 0, 0, 0, 1, 0, 24, 0, 0, 0, 0, 0, 16, 0, 0, 0,
    0, 0, 255, 255, 255, 255, 0, 0, 255, 0, 0, 0, 255, 255, 0, 0]

private theorem smallBmp_isBmp : IsBmp smallBmp where
  header := by decide
  magic := by decide
  width := by decide
  height := by decide
  planes := by decide
  bitsPerPixel := by decide
  uncompressed := by decide
  imageSize := by decide
  offset := by decide
  data := by decide

theorem drawn_from_bmps_small :
    let mem : Nat → UInt8 := fun _ => 0
    let view := bmpPhoto mem smallBmp
    let objects : List (Placed × List Byte) :=
      [(⟨1, 0, bmpImage mem smallBmp⟩, smallBmp)]
    (∀ x y j, j < scrollXDim → 0 ≤ x + (j : Int) → x + j < view.width →
      0 ≤ y → y < (view.height : Int) →
        fillHorizBuffer x y view (objects.map Prod.fst) j =
          bmpScene smallBmp objects (x + j) y) ∧
      ∀ x y j, j < scrollYDim → 0 ≤ y + (j : Int) → y + j < view.height →
        0 ≤ x → x < (view.width : Int) →
          fillVertBuffer x y view (objects.map Prod.fst) j =
            bmpScene smallBmp objects x (y + j) := by
  refine @drawn_from_bmps (bmpPhoto (fun _ => 0) smallBmp) smallBmp (fun _ => 0)
    none ?_ [(⟨1, 0, bmpImage (fun _ => 0) smallBmp⟩, smallBmp)] ?_
  · exact (readPhoto_eq_some _ _ _ _).2
      ⟨smallBmp_isBmp, by decide, by decide, rfl⟩
  · intro o ho
    obtain rfl := List.mem_singleton.1 ho
    exact ⟨fun _ => 0, none, (readObjImage_eq_some _ _ _ _).2
      ⟨smallBmp_isBmp, by decide, by decide, rfl⟩⟩

end CompE.Adventure
