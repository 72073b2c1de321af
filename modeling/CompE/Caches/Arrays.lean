import CompE.Library.LaneMemory

/-!
# The storage arrays of the caches

`array.sv` and `data_array.sv` are eight-entry synchronous memories with a
registered read port and a combinational one.  Both bypass a write that hits
the index being read.  A 256-bit line is represented by its 32 byte lanes:
lane `i` is the slice `[8*i +: 8]` the source indexes with.
-/

namespace CompE.Caches

open CompE.Library

/-! ## Address slices -/

/-- A byte address. -/
abbrev Addr := BitVec 32

/-- A set index, `mem_address[7:5]`. -/
abbrev SetIndex := BitVec 3

/-- A tag, `mem_address[31:8]`. -/
abbrev Tag := BitVec 24

/-- A line number, `mem_address[31:5]`. -/
abbrev LineNo := BitVec 27

/-- A 256-bit line as its 32 byte lanes. -/
abbrev Line := Fin 32 → BitVec 8

/-- A memory of lines: what stands behind a cache. -/
abbrev LineMem := LaneMemory.Content LineNo (Fin 32) (BitVec 8)

def setIndex (a : Addr) : SetIndex := a.extractLsb' 5 3

def tagBits (a : Addr) : Tag := a.extractLsb' 8 24

/-- The line an address lies in; the five offset bits are dropped. -/
def lineNo (a : Addr) : LineNo := a.extractLsb' 5 27

/-- The line of set `s` that a tag names. -/
def lineAt (t : Tag) (s : SetIndex) : LineNo := t ++ s

theorem lineNo_eq (a : Addr) : lineNo a = lineAt (tagBits a) (setIndex a) := by
  have h : (8 : Nat) = 5 + 3 := rfl
  exact (BitVec.extractLsb'_append_extractLsb'_eq_extractLsb' h).symm

/-- The tag of a line. -/
def lineTag (l : LineNo) : Tag := l.extractLsb' 3 24

/-- The set a line maps to. -/
def lineSet (l : LineNo) : SetIndex := l.extractLsb' 0 3

@[simp] theorem lineTag_lineAt (t : Tag) (s : SetIndex) :
    lineTag (lineAt t s) = t :=
  BitVec.extractLsb'_append_eq_left

@[simp] theorem lineSet_lineAt (t : Tag) (s : SetIndex) :
    lineSet (lineAt t s) = s :=
  BitVec.extractLsb'_append_eq_right

@[simp] theorem lineAt_lineTag_lineSet (l : LineNo) :
    lineAt (lineTag l) (lineSet l) = l :=
  @BitVec.extractLsb'_append_extractLsb' 24 3 l

@[simp] theorem lineTag_lineNo (a : Addr) : lineTag (lineNo a) = tagBits a := by
  rw [lineNo_eq, lineTag_lineAt]

@[simp] theorem lineSet_lineNo (a : Addr) : lineSet (lineNo a) = setIndex a := by
  rw [lineNo_eq, lineSet_lineAt]

theorem eq_lineAt_iff {l : LineNo} {t : Tag} {s : SetIndex} :
    l = lineAt t s ↔ lineTag l = t ∧ lineSet l = s := by
  constructor
  · rintro rfl; simp
  · rintro ⟨rfl, rfl⟩; simp

theorem eq_lineNo_iff {l : LineNo} {a : Addr} :
    l = lineNo a ↔ lineTag l = tagBits a ∧ lineSet l = setIndex a := by
  rw [lineNo_eq, eq_lineAt_iff]

/-- The byte lanes a 32-bit enable selects. -/
def lanes (en : BitVec 32) : Fin 32 → Bool := fun i => en.getLsbD i

@[simp] theorem lanes_zero : lanes 0#32 = fun _ => false := by
  funext i; simp [lanes]

@[simp] theorem lanes_ones : lanes 0xFFFFFFFF#32 = fun _ => true := by
  funext i; revert i; decide

/-! ## `array` -/

/-- An `array` of tags, valid, dirty or LRU bits: the stored entries and the
output register `_dataout`. -/
structure TagArray (α : Type) where
  data : SetIndex → α
  dataout : α

namespace TagArray

variable {α : Type}

/-- The clock edge of `array` outside reset. -/
def clock (a : TagArray α) (read load : Bool) (rindex windex : SetIndex)
    (datain : α) : TagArray α where
  data := fun s => if load && s == windex then datain else a.data s
  dataout :=
    if read then
      if load && rindex == windex then datain else a.data rindex
    else a.dataout

/-- The combinational read port of `array`. -/
def dataoutComb (a : TagArray α) (load : Bool) (rindex windex : SetIndex)
    (datain : α) : α :=
  if load && rindex == windex then datain else a.data rindex

@[simp] theorem clock_data_hold (a : TagArray α) (read : Bool)
    (r w : SetIndex) (v : α) : (a.clock read false r w v).data = a.data := by
  simp [clock]

end TagArray

/-! ## `data_array` -/

/-- A `data_array`: one line per set and the output register. -/
structure DataArray where
  data : SetIndex → Line
  dataout : Line

namespace DataArray

/-- The clock edge of `data_array` outside reset. -/
def clock (a : DataArray) (read : Bool) (writeEn : BitVec 32)
    (rindex windex : SetIndex) (datain : Line) : DataArray where
  data := LaneMemory.store a.data windex (lanes writeEn) datain
  dataout :=
    if read then
      LaneMemory.merge (fun i => lanes writeEn i && rindex == windex) datain
        (a.data rindex)
    else a.dataout

/-- The combinational read port of `data_array`. -/
def dataoutComb (a : DataArray) (writeEn : BitVec 32)
    (rindex windex : SetIndex) (datain : Line) : Line :=
  LaneMemory.merge (fun i => lanes writeEn i && rindex == windex) datain
    (a.data rindex)

@[simp] theorem dataoutComb_self (a : DataArray) (en : BitVec 32)
    (s : SetIndex) (v : Line) :
    a.dataoutComb en s s v = LaneMemory.merge (lanes en) v (a.data s) := by
  simp [dataoutComb]

@[simp] theorem clock_data_zero (a : DataArray) (read : Bool)
    (r w : SetIndex) (v : Line) :
    (a.clock read 0#32 r w v).data = a.data := by
  funext s
  by_cases hs : s = w
  · subst hs; simp [clock]
  · simp [clock, LaneMemory.store_of_ne _ _ _ hs]

theorem clock_data_of_ne (a : DataArray) (read : Bool) (en : BitVec 32)
    (r w : SetIndex) (v : Line) {s : SetIndex} (h : s ≠ w) :
    (a.clock read en r w v).data s = a.data s := by
  simp [clock, LaneMemory.store_of_ne _ _ _ h]

end DataArray

end CompE.Caches
