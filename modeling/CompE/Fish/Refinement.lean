import CompE.Fish.Blink

/-!
# The list of blinkers

What the linked nodes stand for is a list of blinkers, the one that was added
last in front (`Board`).  `Holds` ties the two together: the links run once
through exactly the elements whose location is not zero.

A call keeps this as long as no blinker is added at location 0
(`blinkers_refine`).  After one that is, the next `mp1_malloc` hands out the
head of the list again; its link then points to itself and no tasklet ever
ends (`tasklet_hangs`).
-/

namespace CompE.Fish

open CompE.Library

/-! ## The list -/

/-- Change the first element with a property. -/
def mapFirst {α : Type} (p : α → Bool) (g : α → α) : List α → List α
  | [] => []
  | a :: as => if p a then g a :: as else a :: mapFirst p g as

/-- The blinkers, and the screen. -/
structure Board where
  blinkers : List Blinker
  vmem : Nat → BitVec 8

namespace Board

def find (B : Board) (location : BitVec 16) : Option Blinker :=
  B.blinkers.find? fun b => b.location == location

def add (B : Board) (user : Blinker) : Board × Bool :=
  if user.onScreen ∧ B.blinkers.length < cells then
    (⟨user.started :: B.blinkers, poke B.vmem user.location user.onChar⟩, true)
  else (B, false)

def remove (B : Board) (location : BitVec 16) : Board × Bool :=
  match B.find location with
  | none => (B, false)
  | some _ =>
      ({ B with
          blinkers := B.blinkers.eraseP fun b => b.location == location }, true)

def sync (B : Board) (source destination : BitVec 16) : Board × Bool :=
  match B.find source, B.find destination with
  | some src, some dst =>
      (⟨mapFirst (fun b => b.location == destination) (·.synced src) B.blinkers,
        poke B.vmem destination dst.offChar⟩, true)
  | _, _ => (B, false)

def tick (B : Board) : Board :=
  ⟨B.blinkers.map Blinker.tick, B.blinkers.foldl tickScreen B.vmem⟩

/-- One call on the list. -/
def perform (B : Board) : Command → Board × Reply
  | .add user => (B.add user).map id Reply.ofBool
  | .remove arg => (B.remove (arg.setWidth 16)).map id Reply.ofBool
  | .find location => (B, Reply.ofFound (B.find location))
  | .sync arg =>
      (B.sync ((arg >>> 16).setWidth 16) ((arg &&& 0xFFFF#32).setWidth 16)).map
        id Reply.ofBool
  | .tasklet => (B.tick, .ok)

def runs (B : Board) : List Command → Board × List Reply
  | [] => (B, [])
  | c :: cs =>
      let (B', r) := B.perform c
      let (B'', rs) := B'.runs cs
      (B'', r :: rs)

end Board

/-- The blinkers of some elements of the array. -/
def BlinkState.entries (f : BlinkState) (as : List Slot) : List Blinker :=
  as.map fun a => (f.blinkArray a).toBlinker

/-- The links run through `as`, which are the elements in use. -/
structure Linked (f : BlinkState) (as : List Slot) : Prop where
  chain : Chain (fun a => (f.blinkArray a).next) f.listHead as
  nodup : as.Nodup
  used : ∀ a, (f.blinkArray a).location ≠ 0#16 ↔ a ∈ as

/-- The list stands for these blinkers. -/
def Holds (f : BlinkState) (B : Board) : Prop :=
  ∃ as, Linked f as ∧ f.entries as = B.blinkers ∧ f.vmem = B.vmem

private theorem linked_initial (vmem : Nat → BitVec 8) :
    Linked (BlinkState.initial vmem) [] := by
  refine ⟨.nil, List.nodup_nil, fun a => ?_⟩
  simp [BlinkState.initial, Blinker.cleared]

theorem holds_initial (vmem : Nat → BitVec 8) :
    Holds (BlinkState.initial vmem) ⟨[], vmem⟩ :=
  ⟨[], linked_initial vmem, rfl, rfl⟩

section Step

variable {f : BlinkState} {as : List Slot} {n : Nat}

theorem Linked.length_le (h : Linked f as) : as.length ≤ cells := by
  have hCard := h.nodup.length_le_card
  rwa [Fintype.card_fin] at hCard

private theorem find_entries (p : Blinker → Bool) : (f.entries as).find? p =
    (as.find? fun a => p (f.blinkArray a).toBlinker).map
      fun a => (f.blinkArray a).toBlinker := by
  rw [BlinkState.entries, List.find?_map]
  rfl

/-- The helper finds the first node at a location. -/
theorem Linked.find (h : Linked f as) (hBound : cells ≤ n) (ax : BitVec 16) :
    f.mp1FindHelper n ax =
      some (as.find? fun a => (f.blinkArray a).location == ax) :=
  search_eq h.chain _ (h.length_le.trans hBound)

/-- The allocator hands out an element that is in no list, if there is one. -/
theorem Linked.malloc (h : Linked f as) :
    (as.length = cells ∧ f.mp1Malloc = none) ∨
      ∃ a, a ∉ as ∧ as.length < cells ∧ f.mp1Malloc = some a := by
  cases hFree : f.mp1Malloc with
  | none =>
      left
      refine ⟨?_, rfl⟩
      have hAll : ∀ a, a ∈ as := by
        intro a
        have hUsed := List.find?_eq_none.1 hFree a (List.mem_finRange a)
        exact (h.used a).1 (by simpa using hUsed)
      have hLength := (List.toFinset_card_of_nodup h.nodup).symm
      have hUniv : as.toFinset = Finset.univ :=
        Finset.eq_univ_iff_forall.2 fun a => List.mem_toFinset.2 (hAll a)
      rw [hUniv, Finset.card_univ, Fintype.card_fin] at hLength
      exact hLength
  | some a =>
      right
      have hZero := List.find?_some hFree
      have hNot : a ∉ as := by
        intro hMem
        exact (h.used a).2 hMem (by simpa using hZero)
      refine ⟨a, hNot, ?_, rfl⟩
      have hCard := (List.nodup_cons.2 ⟨hNot, h.nodup⟩).length_le_card
      rw [Fintype.card_fin, List.length_cons] at hCard
      exact hCard

/-- Writing the fields of a node at the same location. -/
theorem Linked.write (h : Linked f as) {a : Slot} {b : Blinker}
    (hSame : b.location = (f.blinkArray a).location) : Linked (f.write a b) as := by
  refine ⟨?_, h.nodup, fun a' => ?_⟩
  · apply h.chain.congr
    intro a' _
    by_cases hThis : a' = a
    · subst hThis
      simp [BlinkState.write]
    · simp [BlinkState.write, hThis]
  · rw [← h.used a']
    by_cases hThis : a' = a
    · subst hThis
      simp [BlinkState.write, hSame]
    · simp [BlinkState.write, hThis]

private theorem entries_congr {f' : BlinkState} (h : ∀ a ∈ as,
    (f'.blinkArray a).toBlinker = (f.blinkArray a).toBlinker) :
    f'.entries as = f.entries as :=
  List.map_congr_left h

/-- Writing the first node with a property changes the first blinker with it. -/
theorem entries_write {p : Blinker → Bool} {a : Slot} (hNodup : as.Nodup)
    (hFind : (as.find? fun a => p (f.blinkArray a).toBlinker) = some a)
    (g : Blinker → Blinker) :
    (f.write a (g (f.blinkArray a).toBlinker)).entries as =
      mapFirst p g (f.entries as) := by
  induction as with
  | nil => cases hFind
  | cons a' as ih =>
      obtain ⟨hFresh, hNodup⟩ := List.nodup_cons.1 hNodup
      rw [List.find?_cons] at hFind
      show _ :: (f.write a _).entries as = mapFirst p g (_ :: f.entries as)
      cases hThis : p (f.blinkArray a').toBlinker with
      | true =>
          rw [hThis] at hFind
          cases hFind
          rw [mapFirst, hThis, if_pos rfl]
          congr 1
          · simp [BlinkState.write]
          · apply entries_congr
            intro b hb
            have hNe : b ≠ a := fun hEq => hFresh (hEq ▸ hb)
            simp [BlinkState.write, hNe]
      | false =>
          rw [hThis] at hFind
          have hMem := List.mem_of_find?_eq_some hFind
          have hNe : a' ≠ a := fun hEq => hFresh (hEq ▸ hMem)
          rw [mapFirst, hThis, ih hNodup hFind]
          simp [BlinkState.write, hNe]

/-! ## Adding -/

theorem Holds.add {B : Board} (h : Holds f B) {user : Blinker}
    (hPlaced : user.location ≠ 0#16) :
    (f.mp1IoctlAdd user).2 = (B.add user).2 ∧
      Holds (f.mp1IoctlAdd user).1 (B.add user).1 := by
  obtain ⟨as, hLinked, hEntries, hScreen⟩ := h
  have hLength : B.blinkers.length = as.length := by
    rw [← hEntries, BlinkState.entries, List.length_map]
  rw [BlinkState.mp1IoctlAdd, Board.add, hLength]
  cases hOn : user.onScreen with
  | false => simpa using ⟨as, hLinked, hEntries, hScreen⟩
  | true =>
      rcases hLinked.malloc with ⟨hFull, hNone⟩ | ⟨a, hFree, hRoom, hSome⟩
      · rw [hNone, hFull]
        simpa using ⟨as, hLinked, hEntries, hScreen⟩
      · rw [hSome, if_neg (by simp), if_pos ⟨rfl, hRoom⟩]
        have hOthers : ∀ b ∈ as, (f.insertFront a user.started).blinkArray b =
            f.blinkArray b := by
          intro b hb
          have hNe : b ≠ a := fun hEq => hFree (hEq ▸ hb)
          exact f.insertFront_of_ne hNe _
        refine ⟨rfl, a :: as, ⟨?_, List.nodup_cons.2 ⟨hFree, hLinked.nodup⟩, ?_⟩,
          ?_, by rw [hScreen]⟩
        · apply Chain.cons
          simp only [BlinkState.insertFront_self]
          apply hLinked.chain.congr
          intro b hb
          simp only [hOthers b hb]
        · intro b
          by_cases hb : b = a
          · subst hb
            simp only [BlinkState.insertFront_self]
            simp [hPlaced]
          · simp [hb, ← hLinked.used b]
        · have hFirst := f.insertFront_self a user.started
          rw [← hEntries]
          show BlinkStruct.toBlinker _ :: BlinkState.entries _ as =
            user.started :: f.entries as
          rw [hFirst]
          apply congrArg (List.cons user.started)
          apply List.map_congr_left
          intro b hb
          exact congrArg BlinkStruct.toBlinker (hOthers b hb)

/-! ## Removing -/

/-- The links as an intrusive list. -/
def BlinkState.lists (f : BlinkState) : Lists Unit Slot where
  head _ := f.listHead
  next a := (f.blinkArray a).next
  owner _ := none

private theorem lists_load (l : BlinkState.Place) : f.lists.load l = f.load l := by
  cases l <;> rfl

private theorem lists_store (l : BlinkState.Place) (v : Option Slot) :
    (f.store l v).lists = f.lists.store l v := by
  cases l with
  | head _ => rfl
  | next a =>
      have hNext : (fun b => ((f.store (.next a) v).blinkArray b).next) =
          Function.update (fun b => (f.blinkArray b).next) a v := by
        funext b
        by_cases hb : b = a
        · subst hb
          simp [BlinkState.store]
        · simp [BlinkState.store, hb]
      simp only [BlinkState.lists, Lists.store, hNext]
      rfl

/-- What the walk of the library finds, the walk of the code finds. -/
theorem removeFindPrev_of_findLink {a : Slot} {l' : BlinkState.Place} :
    ∀ {n : Nat} {l : BlinkState.Place}, f.lists.findLink a n l = some (some l') →
      f.removeFindPrev a n l = some l' := by
  intro n
  induction n with
  | zero =>
      intro l h
      rw [Lists.findLink, lists_load] at h
      rw [BlinkState.removeFindPrev]
      cases hLoad : f.load l with
      | none => simp [hLoad] at h
      | some b =>
          rw [hLoad] at h
          by_cases hb : b = a
          · simpa [hb] using h
          · simp [hb] at h
  | succ n ih =>
      intro l h
      rw [Lists.findLink, lists_load] at h
      rw [BlinkState.removeFindPrev]
      cases hLoad : f.load l with
      | none => simp [hLoad] at h
      | some b =>
          rw [hLoad] at h
          by_cases hb : b = a
          · simpa [hb] using h
          · simp only [if_neg hb] at h ⊢
            exact ih h

private theorem toBlinker_store (l : BlinkState.Place) (v : Option Slot) (a : Slot) :
    ((f.store l v).blinkArray a).toBlinker = (f.blinkArray a).toBlinker := by
  cases l with
  | head _ => rfl
  | next b =>
      by_cases ha : a = b
      · subst ha
        simp [BlinkState.store]
      · simp [BlinkState.store, ha]

/-- Erasing the first node with a property erases the first blinker with it. -/
theorem entries_erase {p : Blinker → Bool} {a : Slot}
    (hFind : (as.find? fun a => p (f.blinkArray a).toBlinker) = some a) :
    f.entries (as.erase a) = (f.entries as).eraseP p := by
  induction as with
  | nil => cases hFind
  | cons a' as ih =>
      rw [List.find?_cons] at hFind
      show _ = List.eraseP p (_ :: f.entries as)
      cases hThis : p (f.blinkArray a').toBlinker with
      | true =>
          rw [hThis] at hFind
          cases hFind
          rw [List.erase_cons_head, List.eraseP_cons_of_pos hThis]
      | false =>
          rw [hThis] at hFind
          have hProp := List.find?_some hFind
          have hNe : a' ≠ a := by
            rintro rfl
            simp [hThis] at hProp
          rw [List.erase_cons_tail (by simpa using hNe), List.eraseP_cons_of_neg
            (by simp [hThis]), ← ih hFind]
          rfl

/-- Taking a node of the list out and clearing it. -/
theorem Linked.remove (h : Linked f as) (hBound : cells ≤ n) {a : Slot}
    (hMem : a ∈ as) :
    ∃ l, f.removeFindPrev a n (.head ()) = some l ∧
      Linked ((f.store l (f.blinkArray a).next).mp1Free a) (as.erase a) := by
  obtain ⟨l, hFound, -, hErased⟩ := f.lists.findLink_spec (l := .head ())
    h.chain h.nodup hMem (by simp) (h.length_le.trans hBound)
  refine ⟨l, removeFindPrev_of_findLink hFound, ?_, h.nodup.erase a, fun b => ?_⟩
  · have hChain : Chain (f.store l (f.blinkArray a).next).lists.next
        ((f.store l (f.blinkArray a).next).lists.load (.head ()))
        (as.erase a) := by
      rw [lists_store]
      exact hErased
    apply hChain.congr
    intro b hb
    have hNe : b ≠ a := (h.nodup.mem_erase_iff.1 hb).1
    simp [BlinkState.mp1Free, hNe, BlinkState.lists]
  · rw [h.nodup.mem_erase_iff]
    by_cases hb : b = a
    · subst hb
      simp [BlinkState.mp1Free, Blinker.cleared]
    · have hSame := toBlinker_store (f := f) l (f.blinkArray a).next b
      have hLocation := congrArg Blinker.location hSame
      simp only [BlinkState.mp1Free, ne_eq, hb, not_false_eq_true,
        Function.update_of_ne, true_and]
      rw [hLocation]
      exact h.used b

theorem Holds.remove {B : Board} (h : Holds f B) (hBound : cells ≤ n)
    (arg : BitVec 32) :
    ∃ f', f.mp1IoctlRemove n arg =
        some (f', (B.remove (arg.setWidth 16)).2) ∧
      Holds f' (B.remove (arg.setWidth 16)).1 := by
  obtain ⟨as, hLinked, hEntries, hScreen⟩ := h
  have hFind : B.find (arg.setWidth 16) =
      (as.find? fun a => (f.blinkArray a).location == arg.setWidth 16).map
        fun a => (f.blinkArray a).toBlinker := by
    rw [Board.find, ← hEntries, find_entries]
  rw [BlinkState.mp1IoctlRemove, hLinked.find hBound, Board.remove, hFind]
  cases hNode : as.find? fun a => (f.blinkArray a).location == arg.setWidth 16 with
  | none => exact ⟨f, rfl, as, hLinked, hEntries, hScreen⟩
  | some a =>
      obtain ⟨l, hPlace, hNext⟩ :=
        hLinked.remove hBound (List.mem_of_find?_eq_some hNode)
      refine ⟨(f.store l (f.blinkArray a).next).mp1Free a, by simp [hPlace],
        as.erase a, hNext, ?_, ?_⟩
      · rw [← hEntries]
        rw [← entries_erase (p := fun b => b.location == arg.setWidth 16) hNode]
        apply entries_congr
        intro b hb
        have hNe : b ≠ a := (hLinked.nodup.mem_erase_iff.1 hb).1
        simp only [BlinkState.mp1Free, ne_eq, hNe, not_false_eq_true,
          Function.update_of_ne]
        exact toBlinker_store l _ b
      · rw [← hScreen]
        cases l <;> rfl

/-! ## Synchronising -/

theorem Holds.sync {B : Board} (h : Holds f B) (hBound : cells ≤ n)
    (arg : BitVec 32) :
    ∃ f', f.mp1IoctlSync n arg = some (f', (B.sync ((arg >>> 16).setWidth 16)
        ((arg &&& 0xFFFF#32).setWidth 16)).2) ∧
      Holds f' (B.sync ((arg >>> 16).setWidth 16)
        ((arg &&& 0xFFFF#32).setWidth 16)).1 := by
  generalize hSource : (arg >>> 16).setWidth 16 = source
  generalize hDestination : (arg &&& 0xFFFF#32).setWidth 16 = destination
  obtain ⟨as, hLinked, hEntries, hScreen⟩ := h
  have hFind : ∀ location, B.find location =
      (as.find? fun a => (f.blinkArray a).location == location).map
        fun a => (f.blinkArray a).toBlinker := by
    intro location
    rw [Board.find, ← hEntries, find_entries]
  rw [BlinkState.mp1IoctlSync, hSource, hDestination, hLinked.find hBound,
    hLinked.find hBound, Board.sync, hFind, hFind]
  cases hSrc : as.find? fun a => (f.blinkArray a).location == source with
  | none => exact ⟨f, rfl, as, hLinked, hEntries, hScreen⟩
  | some esi =>
      cases hDst : as.find? fun a => (f.blinkArray a).location == destination with
      | none => exact ⟨f, rfl, as, hLinked, hEntries, hScreen⟩
      | some edi =>
          have hWhere : (f.blinkArray edi).location = destination := by
            simpa using List.find?_some hDst
          refine ⟨_, rfl, as, ?_, ?_, ?_⟩
          · obtain ⟨hChain, hNodup, hUsed⟩ := hLinked.write (a := edi)
              (b := (f.blinkArray edi).toBlinker.synced (f.blinkArray esi).toBlinker)
              rfl
            exact ⟨hChain, hNodup, hUsed⟩
          · rw [← hEntries]
            exact entries_write (p := fun b => b.location == destination)
              hLinked.nodup hDst (·.synced (f.blinkArray esi).toBlinker)
          · simp only [Option.map_some]
            rw [← hScreen, ← hWhere]
            rfl

/-! ## The tasklet -/

/-- The loop visits the nodes of the list. -/
theorem taskletLoop_eq {start : Option Slot}
    (h : Chain (fun a => (f.blinkArray a).next) start as) {n : Nat}
    (hBound : as.length ≤ n) :
    BlinkState.taskletLoop n start f = some (as.foldl BlinkState.tickNode f) := by
  induction as generalizing f start n with
  | nil =>
      cases h
      cases n <;> rfl
  | cons a as ih =>
      cases h with
      | cons hRest =>
          have hSame : ∀ b, ((f.tickNode a).blinkArray b).next =
              (f.blinkArray b).next := by
            intro b
            by_cases hb : b = a
            · subst hb
              simp [BlinkState.tickNode, BlinkState.write]
            · simp [BlinkState.tickNode, BlinkState.write, hb]
          cases n with
          | zero => simp at hBound
          | succ n =>
              rw [BlinkState.taskletLoop, hSame, List.foldl_cons]
              exact ih (hRest.congr fun b _ => hSame b) (by simpa using hBound)

theorem Linked.tickNode (h : Linked f as) (a : Slot) : Linked (f.tickNode a) as := by
  obtain ⟨hChain, hNodup, hUsed⟩ := h.write (a := a)
    (b := (f.blinkArray a).toBlinker.tick) (by simp)
  exact ⟨hChain, hNodup, hUsed⟩

theorem Linked.tickNodes (h : Linked f as) (bs : List Slot) :
    Linked (bs.foldl BlinkState.tickNode f) as := by
  induction bs generalizing f with
  | nil => exact h
  | cons b bs ih => exact ih (h.tickNode b)

/-- A node that is not visited keeps its fields. -/
theorem tickNodes_of_not_mem {bs : List Slot} {a : Slot} (h : a ∉ bs) :
    (bs.foldl BlinkState.tickNode f).blinkArray a = f.blinkArray a := by
  induction bs generalizing f with
  | nil => rfl
  | cons b bs ih =>
      have hThis : a ≠ b := List.ne_of_not_mem_cons h
      rw [List.foldl_cons, ih (List.not_mem_of_not_mem_cons h)]
      simp [BlinkState.tickNode, BlinkState.write, hThis]

/-- Every node that is visited is ticked once. -/
theorem tickNodes_entries (hNodup : as.Nodup) :
    (as.foldl BlinkState.tickNode f).entries as =
        (f.entries as).map Blinker.tick ∧
      (as.foldl BlinkState.tickNode f).vmem =
        (f.entries as).foldl tickScreen f.vmem := by
  induction as generalizing f with
  | nil => exact ⟨rfl, rfl⟩
  | cons a as ih =>
      obtain ⟨hFresh, hNodup⟩ := List.nodup_cons.1 hNodup
      obtain ⟨hEntries, hScreen⟩ := ih (f := f.tickNode a) hNodup
      have hOthers : (f.tickNode a).entries as = f.entries as := by
        apply entries_congr
        intro b hb
        have hNe : b ≠ a := fun hEq => hFresh (hEq ▸ hb)
        simp [BlinkState.tickNode, BlinkState.write, hNe]
      rw [hOthers] at hEntries hScreen
      rw [List.foldl_cons]
      refine ⟨?_, hScreen⟩
      have hHere := tickNodes_of_not_mem (f := f.tickNode a) hFresh
      show BlinkStruct.toBlinker _ :: BlinkState.entries _ as =
        Blinker.tick _ :: (f.entries as).map _
      rw [hEntries, hHere]
      simp [BlinkState.tickNode, BlinkState.write]

theorem Holds.tasklet {B : Board} (h : Holds f B) (hBound : cells ≤ n) :
    ∃ f', f.mp1RtcTasklet n = some f' ∧ Holds f' B.tick := by
  obtain ⟨as, hLinked, hEntries, hScreen⟩ := h
  obtain ⟨hTicked, hShown⟩ := tickNodes_entries (f := f) hLinked.nodup
  refine ⟨as.foldl BlinkState.tickNode f,
    taskletLoop_eq hLinked.chain (hLinked.length_le.trans hBound), as,
    hLinked.tickNodes as, ?_, ?_⟩
  · rw [hTicked, hEntries]
    rfl
  · rw [hShown, hEntries, hScreen]
    rfl

end Step

/-! ## Runs -/

/-- A blinker is not added at location 0. -/
def Command.Placed : Command → Prop
  | .add user => user.location ≠ 0#16
  | _ => True

/-- One call does to the links what it does to the list. -/
theorem Holds.perform {f : BlinkState} {B : Board} (h : Holds f B) {n : Nat}
    (hBound : cells ≤ n) {c : Command} (hPlaced : c.Placed) :
    ∃ f', f.perform n c = some (f', (B.perform c).2) ∧
      Holds f' (B.perform c).1 := by
  cases c with
  | add user =>
      obtain ⟨hReply, hNext⟩ := h.add hPlaced
      refine ⟨_, ?_, hNext⟩
      simp [BlinkState.perform, Board.perform, Prod.map, hReply]
  | remove arg =>
      obtain ⟨f', hRun, hNext⟩ := h.remove hBound arg
      refine ⟨f', ?_, hNext⟩
      simp [BlinkState.perform, Board.perform, hRun]
  | find location =>
      obtain ⟨as, hLinked, hEntries, hScreen⟩ := h
      refine ⟨f, ?_, as, hLinked, hEntries, hScreen⟩
      rw [BlinkState.perform, BlinkState.mp1IoctlFind, hLinked.find hBound,
        Board.perform, Board.find, ← hEntries, find_entries]
      cases as.find? fun a => (f.blinkArray a).location == location <;> rfl
  | sync arg =>
      obtain ⟨f', hRun, hNext⟩ := h.sync hBound arg
      refine ⟨f', ?_, hNext⟩
      simp [BlinkState.perform, Board.perform, hRun]
  | tasklet =>
      obtain ⟨f', hRun, hNext⟩ := h.tasklet hBound
      refine ⟨f', ?_, hNext⟩
      simp [BlinkState.perform, Board.perform, hRun]

theorem Holds.runs {n : Nat} (hBound : cells ≤ n) {cs : List Command}
    (hPlaced : ∀ c ∈ cs, c.Placed) {f : BlinkState} {B : Board} (h : Holds f B) :
    ∃ f', f.runs n cs = some (f', (B.runs cs).2) ∧ Holds f' (B.runs cs).1 := by
  induction cs generalizing f B with
  | nil => exact ⟨f, rfl, h⟩
  | cons c cs ih =>
      obtain ⟨f', hHere, hNext⟩ := h.perform hBound (hPlaced c (by simp))
      obtain ⟨f'', hRest, hEnd⟩ := ih (fun c hc => hPlaced c (by simp [hc])) hNext
      refine ⟨f'', ?_, hEnd⟩
      simp [BlinkState.runs, Board.runs, hHere, hRest]

/--
**The linked nodes refine the list of blinkers.**  From the cleared array, for
every sequence of calls that adds no blinker at location 0: every walk ends
within the array's length, every call returns what it returns on the list, and
at the end the links run once through exactly the elements in use.
-/
theorem blinkers_refine (vmem : Nat → BitVec 8) {cs : List Command}
    (hPlaced : ∀ c ∈ cs, c.Placed) :
    ∃ f', (BlinkState.initial vmem).runs cells cs =
        some (f', (Board.runs ⟨[], vmem⟩ cs).2) ∧
      Holds f' (Board.runs ⟨[], vmem⟩ cs).1 :=
  (holds_initial vmem).runs (Nat.le_refl _) hPlaced

/-- `fish` adds a blinker, lets the tasklet run and removes it twice. -/
theorem blinkers_refine_add_remove :
    (∀ c ∈ [Command.add ⟨540#16, 73#8, 77#8, 7#16, 6#16, 0#16, 0#16⟩, .tasklet,
      .remove 540#32, .remove 540#32], c.Placed) ∧
    ∃ f', (BlinkState.initial fun _ => 0#8).runs cells
        [.add ⟨540#16, 73#8, 77#8, 7#16, 6#16, 0#16, 0#16⟩, .tasklet,
          .remove 540#32, .remove 540#32] =
        some (f', [.ok, .ok, .ok, .fail]) ∧
      Holds f' (Board.runs ⟨[], fun _ => 0#8⟩
        [.add ⟨540#16, 73#8, 77#8, 7#16, 6#16, 0#16, 0#16⟩, .tasklet,
          .remove 540#32, .remove 540#32]).1 := by
  have hPlaced : ∀ c ∈ [Command.add ⟨540#16, 73#8, 77#8, 7#16, 6#16, 0#16, 0#16⟩,
      .tasklet, .remove 540#32, .remove 540#32], c.Placed := by
    simp [Command.Placed]
  have hReplies : (Board.runs ⟨[], fun _ => 0#8⟩
      [.add ⟨540#16, 73#8, 77#8, 7#16, 6#16, 0#16, 0#16⟩, .tasklet,
        .remove 540#32, .remove 540#32]).2 = [.ok, .ok, .ok, .fail] := by
    decide
  exact ⟨hPlaced, hReplies ▸ blinkers_refine (fun _ => 0#8) hPlaced⟩

/-! ## Location 0 -/

/-- A node whose link points to itself is walked for ever. -/
theorem taskletLoop_cycle {a : Slot} (n : Nat) {f : BlinkState}
    (h : (f.blinkArray a).next = some a) :
    BlinkState.taskletLoop n (some a) f = none := by
  induction n generalizing f with
  | zero => rfl
  | succ n ih =>
      have hNext : ((f.tickNode a).blinkArray a).next = some a := by
        simpa [BlinkState.tickNode, BlinkState.write] using h
      rw [BlinkState.taskletLoop, hNext]
      exact ih hNext

section Lost

variable {f : BlinkState} {first second : Blinker} {a : Slot}

private theorem mp1IoctlAdd_malloc (hOn : first.onScreen = true) (hFree : f.mp1Malloc = some a) :
    (f.mp1IoctlAdd first).1 = { f.insertFront a first.started with
      vmem := poke f.vmem first.location first.onChar } := by
  simp [BlinkState.mp1IoctlAdd, hOn, hFree]

/-- A node with a blinker at location 0 still is the first whose location is
zero. -/
theorem malloc_again (hFirst : first.location = 0#16) (hFree : f.mp1Malloc = some a) :
    (f.mp1IoctlAdd first).1.mp1Malloc = some a := by
  have hOn : first.onScreen = true := by
    simp [Blinker.onScreen, hFirst, cells]
  have hSame : ∀ b, (((f.insertFront a first.started).blinkArray b).location
      == 0#16) = ((f.blinkArray b).location == 0#16) := by
    intro b
    by_cases hb : b = a
    · subst hb
      have hZero := List.find?_some hFree
      rw [hZero, f.insertFront_self]
      simp [hFirst]
    · rw [f.insertFront_of_ne hb]
  rw [mp1IoctlAdd_malloc hOn hFree, BlinkState.mp1Malloc]
  rw [BlinkState.mp1Malloc] at hFree
  simp only [hSame]
  exact hFree

end Lost

/--
**A blinker at location 0 is lost.**  Whatever the list is, if it is added and
any blinker on the screen after it, `mp1_malloc` gives the second one the node
of the first, whose link then points to itself, and the tasklet never ends.
-/
theorem tasklet_hangs {f : BlinkState} {first second : Blinker} (hFirst : first.location = 0#16)
    (hAdded : (f.mp1IoctlAdd first).2 = true) (hSecond : second.onScreen = true) :
    let f₁ := (f.mp1IoctlAdd first).1
    let f₂ := (f₁.mp1IoctlAdd second).1
    ∃ a, f.mp1Malloc = some a ∧ f₁.mp1Malloc = some a ∧
      f₁.listHead = some a ∧ (f₂.blinkArray a).next = some a ∧
      ∀ n, f₂.mp1RtcTasklet n = none := by
  intro f₁ f₂
  cases hFree : f.mp1Malloc with
  | none => simp [BlinkState.mp1IoctlAdd, hFree] at hAdded
  | some a =>
      have hOn : first.onScreen = true := by
        simp [Blinker.onScreen, hFirst, cells]
      have hOnce : f₁ = { f.insertFront a first.started with
          vmem := poke f.vmem first.location first.onChar } :=
        mp1IoctlAdd_malloc hOn hFree
      have hAgain : f₁.mp1Malloc = some a := malloc_again hFirst hFree
      have hTwice : f₂ = { f₁.insertFront a second.started with
          vmem := poke f₁.vmem second.location second.onChar } :=
        mp1IoctlAdd_malloc hSecond hAgain
      have hHead : f₁.listHead = some a := by
        rw [hOnce]
        rfl
      have hLink : (f₂.blinkArray a).next = some a := by
        rw [hTwice, hOnce]
        simp only [BlinkState.insertFront_self]
        rfl
      refine ⟨a, rfl, hAgain, hHead, hLink, ?_⟩
      intro n
      rw [hTwice] at hLink ⊢
      exact taskletLoop_cycle n hLink

/-- A blinker in the top left corner, and one beside it. -/
theorem tasklet_hangs_corner :
    let f : BlinkState := .initial fun _ => 0#8
    let f₁ := (f.mp1IoctlAdd ⟨0#16, 65#8, 66#8, 15#16, 15#16, 0#16, 0#16⟩).1
    let f₂ := (f₁.mp1IoctlAdd ⟨1#16, 65#8, 66#8, 15#16, 15#16, 0#16, 0#16⟩).1
    ∃ a, f.mp1Malloc = some a ∧ f₁.mp1Malloc = some a ∧
      f₁.listHead = some a ∧ (f₂.blinkArray a).next = some a ∧
      ∀ n, f₂.mp1RtcTasklet n = none := by
  have hAdded : ((BlinkState.initial fun _ => 0#8).mp1IoctlAdd
      ⟨0#16, 65#8, 66#8, 15#16, 15#16, 0#16, 0#16⟩).2 = true := by
    rcases (linked_initial fun _ => 0#8).malloc with ⟨hFull, -⟩ | ⟨a, -, -, hFree⟩
    · exact absurd hFull (by decide)
    · simp [BlinkState.mp1IoctlAdd, hFree, Blinker.onScreen, cells]
  exact tasklet_hangs rfl hAdded (by decide)

end CompE.Fish
