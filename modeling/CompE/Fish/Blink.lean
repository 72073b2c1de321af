import CompE.Library.IntrusiveList
import Mathlib.Data.BitVec
import Mathlib.Data.Fintype.Fin

/-!
# The blinking characters of `fish`

`blink.S` keeps the characters that blink in a singly linked list whose nodes
are elements of `blink_array`; `mp1_malloc` takes the first element whose
`location` is zero, and `mp1_free` clears an element.  The RTC tasklet counts
every node down and swaps its character when the count runs out.

So an element is free exactly when its location is zero, and a blinker that is
added at location 0 is free and in the list at the same time.
-/

namespace CompE.Fish

open CompE.Library

/-- The cells of the screen, and the elements of `blink_array`. -/
def cells : Nat := 80 * 25

/-- A place in `blink_array`. -/
abbrev Slot := Fin cells

/-- The fields of `struct mp1_blink_struct` before its link. -/
structure Blinker where
  location : BitVec 16
  onChar : BitVec 8
  offChar : BitVec 8
  onLength : BitVec 16
  offLength : BitVec 16
  countdown : BitVec 16
  status : BitVec 16
  deriving DecidableEq

/-- `struct mp1_blink_struct`. -/
structure BlinkStruct extends Blinker where
  next : Option Slot

/-- The list, its nodes, and the video memory at `vmem_base_addr`. -/
structure BlinkState where
  listHead : Option Slot
  blinkArray : Slot → BlinkStruct
  vmem : Nat → BitVec 8

namespace Blinker

/-- The location is on the screen. -/
def onScreen (b : Blinker) : Bool := b.location.toNat < cells

/-- Bit 0 of the status. -/
def isOn (b : Blinker) : Bool := b.status.getLsbD 0

/-- A structure from the user as `mp1_ioctl_add` completes it. -/
def started (b : Blinker) : Blinker :=
  { b with status := 1#16, countdown := b.onLength }

/-- The count has run out: the comparison is signed. -/
def expired (b : Blinker) : Bool := !(0#16).slt (b.countdown - 1#16)

/-- One tick of the tasklet. -/
def tick (b : Blinker) : Blinker :=
  if b.expired then
    { b with
      countdown := if b.isOn then b.offLength else b.onLength
      status := b.status ^^^ 1#16 }
  else { b with countdown := b.countdown - 1#16 }

/-- The character a tick that swaps writes. -/
def swapped (b : Blinker) : BitVec 8 := if b.isOn then b.offChar else b.onChar

/-- The fields `mp1_ioctl_sync` copies. -/
def synced (dst src : Blinker) : Blinker :=
  { dst with
    onLength := src.onLength
    offLength := src.offLength
    countdown := src.countdown
    status := src.status }

/-- All bytes zero. -/
def cleared : Blinker := ⟨0#16, 0#8, 0#8, 0#16, 0#16, 0#16, 0#16⟩

@[simp] theorem started_location (b : Blinker) :
    b.started.location = b.location := rfl

@[simp] theorem synced_location (dst src : Blinker) :
    (dst.synced src).location = dst.location := rfl

@[simp] theorem tick_location (b : Blinker) : b.tick.location = b.location := by
  rw [tick]
  split <;> rfl

end Blinker

/-- `mp1_poke` at a location: the character byte of its cell. -/
def poke (vmem : Nat → BitVec 8) (location : BitVec 16) (c : BitVec 8) :
    Nat → BitVec 8 :=
  Function.update vmem (2 * location.toNat) c

/-- What the tasklet writes for one blinker. -/
def tickScreen (vmem : Nat → BitVec 8) (b : Blinker) : Nat → BitVec 8 :=
  if b.expired then poke vmem b.location b.swapped else vmem

namespace BlinkState

/-- Write the fields of a node; its link stays. -/
def write (f : BlinkState) (a : Slot) (b : Blinker) : BlinkState :=
  { f with
    blinkArray := Function.update f.blinkArray a
      { b with next := (f.blinkArray a).next } }

/-! ## `fish.c` -/

/-- `mp1_malloc`: the first element whose location is zero. -/
def mp1Malloc (f : BlinkState) : Option Slot :=
  (List.finRange cells).find? fun i => (f.blinkArray i).location == 0#16

/-- `mp1_free`. -/
def mp1Free (f : BlinkState) (a : Slot) : BlinkState :=
  { f with
    blinkArray :=
      Function.update f.blinkArray a { Blinker.cleared with next := none } }

/-! ## `blink.S` -/

/-- The tasklet's work on one node. -/
def tickNode (f : BlinkState) (a : Slot) : BlinkState :=
  { f.write a (f.blinkArray a).toBlinker.tick with
    vmem := tickScreen f.vmem (f.blinkArray a).toBlinker }

/-- `tasklet_loop` from a node on; `none` if the list is longer than `n`. -/
def taskletLoop : Nat → Option Slot → BlinkState → Option BlinkState
  | _, none, f => some f
  | 0, some _, _ => none
  | n + 1, some a, f =>
      taskletLoop n ((f.tickNode a).blinkArray a).next (f.tickNode a)

/-- `mp1_rtc_tasklet`. -/
def mp1RtcTasklet (n : Nat) (f : BlinkState) : Option BlinkState :=
  taskletLoop n f.listHead f

/-- `mp1_find_helper`. -/
def mp1FindHelper (n : Nat) (f : BlinkState) (ax : BitVec 16) : Option (Option Slot) :=
  search (fun a => (f.blinkArray a).next)
    (fun a => (f.blinkArray a).location == ax) n f.listHead

/-- Fill a node and put it in front of the list. -/
def insertFront (f : BlinkState) (a : Slot) (b : Blinker) : BlinkState :=
  { f with
    listHead := some a
    blinkArray := Function.update f.blinkArray a { b with next := f.listHead } }

/-- `mp1_ioctl_add`, with `ece391_memcpy` succeeding as that of `fish.c`
does. -/
def mp1IoctlAdd (f : BlinkState) (user : Blinker) : BlinkState × Bool :=
  if !user.onScreen then (f, false)
  else
    match f.mp1Malloc with
    | none => (f, false)
    | some a =>
        ({ f.insertFront a user.started with
            vmem := poke f.vmem user.location user.onChar }, true)

@[simp] theorem insertFront_self (f : BlinkState) (a : Slot) (b : Blinker) :
    (f.insertFront a b).blinkArray a = { b with next := f.listHead } :=
  Function.update_self _ _ _

@[simp] theorem insertFront_of_ne (f : BlinkState) {a a' : Slot} (h : a' ≠ a)
    (b : Blinker) : (f.insertFront a b).blinkArray a' = f.blinkArray a' :=
  Function.update_of_ne h _ _

/-- A place that holds a link, as an address in the assembly. -/
abbrev Place := Link Unit Slot

def load (f : BlinkState) : Place → Option Slot
  | .head _ => f.listHead
  | .next a => (f.blinkArray a).next

def store (f : BlinkState) (l : Place) (v : Option Slot) : BlinkState :=
  match l with
  | .head _ => { f with listHead := v }
  | .next a =>
      { f with
        blinkArray := Function.update f.blinkArray a
          { f.blinkArray a with next := v } }

/-- `remove_find_prev`: the place that holds `a`.  Walking over the end of the
list would be a fault. -/
def removeFindPrev (f : BlinkState) (a : Slot) (n : Nat) (l : Place) : Option Place :=
  match f.load l with
  | none => none
  | some b =>
      if b = a then some l
      else
        match n with
        | 0 => none
        | n + 1 => f.removeFindPrev a n (.next b)

/-- `mp1_ioctl_remove`; `none` if a loop does not end or faults. -/
def mp1IoctlRemove (n : Nat) (f : BlinkState) (arg : BitVec 32) :
    Option (BlinkState × Bool) := do
  match ← f.mp1FindHelper n (arg.setWidth 16) with
  | none => return (f, false)
  | some a =>
      let l ← f.removeFindPrev a n (.head ())
      return ((f.store l (f.blinkArray a).next).mp1Free a, true)

/-- `mp1_ioctl_find`: the structure the user gets. -/
def mp1IoctlFind (n : Nat) (f : BlinkState) (location : BitVec 16) :
    Option (Option BlinkStruct) := do
  match ← f.mp1FindHelper n location with
  | none => return none
  | some a => return some (f.blinkArray a)

/-- `mp1_ioctl_sync`: the high half names the source, the low half the
destination.  `cmovl` is the move for "less", which never holds after `testb`,
so the off character is shown whatever the status is. -/
def mp1IoctlSync (n : Nat) (f : BlinkState) (arg : BitVec 32) :
    Option (BlinkState × Bool) := do
  match ← f.mp1FindHelper n ((arg >>> 16).setWidth 16) with
  | none => return (f, false)
  | some esi =>
      match ← f.mp1FindHelper n ((arg &&& 0xFFFF#32).setWidth 16) with
      | none => return (f, false)
      | some edi =>
          let dst := (f.blinkArray edi).toBlinker.synced
            (f.blinkArray esi).toBlinker
          return ({ f.write edi dst with
            vmem := poke f.vmem dst.location dst.offChar }, true)

end BlinkState

/-! ## Runs -/

/-- What `fish` does between two RTC reads. -/
inductive Command where
  | add (user : Blinker)
  | remove (arg : BitVec 32)
  | find (location : BitVec 16)
  | sync (arg : BitVec 32)
  | tasklet

/-- What the caller gets: 0 or -1, and the structure that was found. -/
inductive Reply where
  | ok
  | fail
  | found (b : Blinker)
  deriving DecidableEq

def Reply.ofBool (b : Bool) : Reply := if b then .ok else .fail

def Reply.ofFound : Option Blinker → Reply
  | some b => .found b
  | none => .fail

/-- One call.  `n` bounds the walks. -/
def BlinkState.perform (n : Nat) (f : BlinkState) : Command → Option (BlinkState × Reply)
  | .add user => some ((f.mp1IoctlAdd user).map id Reply.ofBool)
  | .remove arg => (f.mp1IoctlRemove n arg).map (Prod.map id Reply.ofBool)
  | .find location => (f.mp1IoctlFind n location).map fun found =>
      (f, Reply.ofFound (found.map BlinkStruct.toBlinker))
  | .sync arg => (f.mp1IoctlSync n arg).map (Prod.map id Reply.ofBool)
  | .tasklet => (f.mp1RtcTasklet n).map fun f' => (f', .ok)

/-- A run of calls. -/
def BlinkState.runs (n : Nat) (f : BlinkState) : List Command → Option (BlinkState × List Reply)
  | [] => some (f, [])
  | c :: cs => do
      let (f', r) ← f.perform n c
      let (f'', rs) ← f'.runs n cs
      return (f'', r :: rs)

/-- `blink_array` cleared, the list empty. -/
def BlinkState.initial (vmem : Nat → BitVec 8) : BlinkState where
  listHead := none
  blinkArray := fun _ => { Blinker.cleared with next := none }
  vmem := vmem

end CompE.Fish
