import CompE.Fish.Refinement
import CompE.Library.Machine

/-!
# What the blinkers show

The cell of a blinker should show its on character while bit 0 of its status is
set, and its off character otherwise (`Mirrored`).  Adding, removing and the
tasklet keep this; `mp1_ioctl_sync` always writes the off character, so the
display goes wrong exactly when it copies the status of a blinker that is on
(`display_iff`).

Nothing but character bytes of the screen is ever written (`vmem_frame`).
-/

namespace CompE.Fish

open CompE.Library

/-- The character that belongs on the screen. -/
def Blinker.shown (b : Blinker) : BitVec 8 :=
  if b.isOn then b.onChar else b.offChar

/-- Every node in use is on the screen as its status says. -/
def BlinkState.Mirrored (f : BlinkState) : Prop :=
  ∀ a, (f.blinkArray a).location ≠ 0#16 →
    f.vmem (2 * (f.blinkArray a).location.toNat) = (f.blinkArray a).shown

namespace Board

def Mirrored (B : Board) : Prop :=
  ∀ b ∈ B.blinkers, B.vmem (2 * b.location.toNat) = b.shown

/-- No two blinkers share a cell. -/
def Apart (B : Board) : Prop := (B.blinkers.map Blinker.location).Nodup

/-- The calls of a program that adds at most one blinker to a cell. -/
def machine : Machine Board Command Reply where
  step B c := (B.perform c).1
  emit B c := [(B.perform c).2]
  legal B c :=
    match c with
    | .add user => user.location ≠ 0#16 ∧ B.find user.location = none
    | _ => True

/-- A blinker that takes over the status of another shows the off character;
so it should. -/
def SyncShows (B : Board) : Command → Prop
  | .sync arg =>
      ∀ src dst, B.find ((arg >>> 16).setWidth 16) = some src →
        B.find ((arg &&& 0xFFFF#32).setWidth 16) = some dst →
          src.isOn = false ∨ dst.onChar = dst.offChar
  | _ => True

end Board

theorem Holds.mirrored_iff {f : BlinkState} {B : Board} (h : Holds f B) :
    f.Mirrored ↔ B.Mirrored := by
  obtain ⟨as, hLinked, hEntries, hScreen⟩ := h
  rw [Board.Mirrored, ← hEntries, ← hScreen]
  constructor
  · intro hMirrored b hb
    obtain ⟨a, ha, rfl⟩ := List.mem_map.1 hb
    exact hMirrored a ((hLinked.used a).2 ha)
  · intro hMirrored a ha
    exact hMirrored _ (List.mem_map.2 ⟨a, (hLinked.used a).1 ha, rfl⟩)

/-! ## One call -/

private theorem poke_self (vmem : Nat → BitVec 8) (location : BitVec 16) (c : BitVec 8) :
    poke vmem location c (2 * location.toNat) = c :=
  Function.update_self _ _ _

private theorem poke_of_ne (vmem : Nat → BitVec 8) {location location' : BitVec 16}
    (h : location' ≠ location) (c : BitVec 8) :
    poke vmem location c (2 * location'.toNat) = vmem (2 * location'.toNat) := by
  apply Function.update_of_ne
  intro hEq
  apply h
  apply BitVec.eq_of_toNat_eq
  omega

theorem Blinker.shown_started (b : Blinker) : b.started.shown = b.onChar := by
  simp [shown, isOn, started]

/-- A swap changes bit 0 of the status. -/
theorem Blinker.isOn_swap (b : Blinker) :
    (b.status ^^^ 1#16).getLsbD 0 = !b.isOn := by
  simp [Blinker.isOn]

/-- A tick leaves alone what it does not swap, and shows what it swaps. -/
theorem Blinker.shown_tick (b : Blinker) :
    b.tick.shown = if b.expired then b.swapped else b.shown := by
  rw [tick]
  cases hExpired : b.expired with
  | false => rfl
  | true =>
      simp only [if_true, shown, swapped]
      rw [isOn, isOn_swap]
      cases b.isOn <;> rfl

section Tick

variable {bs : List Blinker} {vmem : Nat → BitVec 8}

private theorem tickScreen_of_ne {b : Blinker} {location : BitVec 16}
    (h : location ≠ b.location) :
    tickScreen vmem b (2 * location.toNat) = vmem (2 * location.toNat) := by
  rw [tickScreen]
  split
  · exact poke_of_ne _ h _
  · rfl

/-- Blinkers at other cells leave a cell alone. -/
theorem foldl_tickScreen_of_ne {location : BitVec 16}
    (h : ∀ b ∈ bs, location ≠ b.location) :
    bs.foldl tickScreen vmem (2 * location.toNat) =
      vmem (2 * location.toNat) := by
  induction bs generalizing vmem with
  | nil => rfl
  | cons b bs ih =>
      rw [List.foldl_cons, ih fun b' hb' => h b' (by simp [hb'])]
      exact tickScreen_of_ne (h b (by simp))

private theorem tickScreen_self (b : Blinker)
    (h : vmem (2 * b.location.toNat) = b.shown) :
    tickScreen vmem b (2 * b.location.toNat) = b.tick.shown := by
  rw [tickScreen, b.shown_tick]
  split
  · exact poke_self _ _ _
  · exact h

/-- After a tasklet every cell shows its blinker. -/
theorem foldl_tickScreen_shows (hApart : (bs.map Blinker.location).Nodup)
    (hShown : ∀ b ∈ bs, vmem (2 * b.location.toNat) = b.shown) :
    ∀ b ∈ bs, bs.foldl tickScreen vmem (2 * b.location.toNat) = b.tick.shown := by
  induction bs generalizing vmem with
  | nil => simp
  | cons b bs ih =>
      obtain ⟨hFresh, hApart⟩ := List.nodup_cons.1 hApart
      have hOthers : ∀ b' ∈ bs, b'.location ≠ b.location := by
        intro b' hb' hEq
        exact hFresh (List.mem_map.2 ⟨b', hb', hEq⟩)
      intro b' hb'
      rw [List.foldl_cons]
      rcases List.mem_cons.1 hb' with rfl | hRest
      · rw [foldl_tickScreen_of_ne fun c hc => (hOthers c hc).symm]
        exact tickScreen_self b' (hShown b' (by simp))
      · refine ih hApart (fun c hc => ?_) b' hRest
        rw [tickScreen_of_ne (hOthers c hc)]
        exact hShown c (by simp [hc])

end Tick

section MapFirst

variable {bs : List Blinker} {p : Blinker → Bool} {g : Blinker → Blinker}

private theorem mapFirst_map {α : Type} (f : Blinker → α) (h : ∀ b, f (g b) = f b) :
    (mapFirst p g bs).map f = bs.map f := by
  induction bs with
  | nil => rfl
  | cons b bs ih =>
      rw [mapFirst]
      split
      · rw [List.map_cons, h, List.map_cons]
      · rw [List.map_cons, ih, List.map_cons]

/-- What is in the list afterwards is the changed blinker or was there, without
the property if the one with it is the only one. -/
theorem mem_mapFirst {location : BitVec 16} {dst b : Blinker}
    (hApart : (bs.map Blinker.location).Nodup)
    (hFind : (bs.find? fun b => b.location == location) = some dst)
    (hMem : b ∈ mapFirst (fun b => b.location == location) g bs) :
    b = g dst ∨ b ∈ bs ∧ b.location ≠ location := by
  induction bs with
  | nil => cases hFind
  | cons b' bs ih =>
      obtain ⟨hFresh, hApart⟩ := List.nodup_cons.1 hApart
      rw [mapFirst] at hMem
      rw [List.find?_cons] at hFind
      cases hThis : b'.location == location with
      | true =>
          rw [hThis] at hFind hMem
          cases hFind
          rcases List.mem_cons.1 hMem with rfl | hRest
          · exact .inl rfl
          · refine .inr ⟨by simp [hRest], fun hEq => hFresh ?_⟩
            rw [beq_iff_eq] at hThis
            rw [hThis, ← hEq]
            exact List.mem_map.2 ⟨b, hRest, rfl⟩
      | false =>
          rw [hThis] at hFind hMem
          rcases List.mem_cons.1 hMem with rfl | hRest
          · exact .inr ⟨by simp, by simpa using hThis⟩
          · rcases ih hApart hFind hRest with hEq | ⟨hIn, hNe⟩
            · exact .inl hEq
            · exact .inr ⟨by simp [hIn], hNe⟩

private theorem mapFirst_mem {dst : Blinker} (hFind : bs.find? p = some dst) :
    g dst ∈ mapFirst p g bs := by
  induction bs with
  | nil => cases hFind
  | cons b bs ih =>
      rw [List.find?_cons] at hFind
      rw [mapFirst]
      cases hThis : p b with
      | true =>
          rw [hThis] at hFind
          cases hFind
          simp
      | false =>
          rw [hThis] at hFind
          simp [ih hFind]

end MapFirst

namespace Board

variable {B : Board} {c : Command}

private theorem find_location {location : BitVec 16} {b : Blinker}
    (h : B.find location = some b) : b.location = location := by
  simpa using List.find?_some h

/-- The cells stay apart. -/
theorem Apart.perform (hApart : B.Apart) (hLegal : machine.legal B c) :
    (B.perform c).1.Apart := by
  cases c with
  | add user =>
      show (B.add user).1.Apart
      rw [Board.add]
      split
      · refine List.nodup_cons.2 ⟨?_, hApart⟩
        intro hMem
        obtain ⟨b, hb, hEq⟩ := List.mem_map.1 hMem
        have hNone := List.find?_eq_none.1 hLegal.2 b hb
        rw [hEq] at hNone
        simp at hNone
      · exact hApart
  | remove arg =>
      show (B.remove _).1.Apart
      rw [Board.remove]
      split
      · exact hApart
      · exact (List.Sublist.map _ List.eraseP_sublist).nodup hApart
  | find location => exact hApart
  | sync arg =>
      show (B.sync _ _).1.Apart
      rw [Board.sync]
      split
      · next src dst _ _ =>
          show ((mapFirst _ (fun b => b.synced src) _).map Blinker.location).Nodup
          rw [mapFirst_map (g := fun b => b.synced src) _ fun _ => rfl]
          exact hApart
      · exact hApart
  | tasklet =>
      show ((B.blinkers.map Blinker.tick).map Blinker.location).Nodup
      rw [List.map_map]
      have hSame : Blinker.location ∘ Blinker.tick = Blinker.location := by
        funext b
        exact b.tick_location
      rw [hSame]
      exact hApart

/-- A call keeps the display right, unless it synchronises with a blinker that
is on. -/
theorem Mirrored.perform (h : B.Mirrored) (hApart : B.Apart)
    (hLegal : machine.legal B c) (hSync : B.SyncShows c) :
    (B.perform c).1.Mirrored := by
  cases c with
  | add user =>
      show (B.add user).1.Mirrored
      rw [Board.add]
      split
      · intro b hb
        rcases List.mem_cons.1 hb with rfl | hRest
        · exact (poke_self B.vmem user.location user.onChar).trans user.shown_started.symm
        · have hNe : b.location ≠ user.location := by
            have hNone := List.find?_eq_none.1 hLegal.2 b hRest
            simpa using hNone
          show poke _ _ _ _ = _
          rw [poke_of_ne _ hNe]
          exact h b hRest
      · exact h
  | remove arg =>
      show (B.remove _).1.Mirrored
      rw [Board.remove]
      split
      · exact h
      · intro b hb
        exact h b (List.mem_of_mem_eraseP hb)
  | find location => exact h
  | sync arg =>
      show (B.sync _ _).1.Mirrored
      rw [Board.sync]
      split
      · next src dst hSrc hDst =>
          intro b hb
          show poke _ _ _ _ = _
          rcases mem_mapFirst hApart hDst hb with rfl | ⟨hIn, hNe⟩
          · rw [Blinker.synced_location, find_location hDst, poke_self]
            have hShows := hSync src dst hSrc hDst
            show dst.offChar = if src.isOn then dst.onChar else dst.offChar
            rcases hShows with hOff | hSame
            · rw [hOff]
              rfl
            · rw [hSame]
              split <;> rfl
          · rw [poke_of_ne _ hNe]
            exact h b hIn
      · exact h
  | tasklet =>
      intro b hb
      obtain ⟨b', hb', rfl⟩ := List.mem_map.1 hb
      rw [Blinker.tick_location]
      exact foldl_tickScreen_shows hApart h b' hb'

/-- And synchronising with one that is on does show the wrong character. -/
theorem Mirrored.syncShows (h : (B.perform c).1.Mirrored) : B.SyncShows c := by
  cases c with
  | sync arg =>
      intro src dst hSrc hDst
      have hShown : (B.sync _ _).1.Mirrored := h
      rw [Board.sync, hSrc, hDst] at hShown
      have hCell := hShown (dst.synced src)
        (mapFirst_mem (p := fun b => b.location == _) hDst)
      rw [Blinker.synced_location, find_location hDst] at hCell
      have hEq : dst.offChar = if src.isOn then dst.onChar else dst.offChar :=
        (poke_self _ _ _).symm.trans hCell
      cases hOn : src.isOn with
      | false => exact .inl rfl
      | true =>
          rw [hOn] at hEq
          exact .inr hEq.symm
  | _ => trivial

end Board

/-! ## Runs -/

theorem Board.runs_fst (B : Board) (cs : List Command) :
    (B.runs cs).1 = Board.machine.run B cs := by
  induction cs generalizing B with
  | nil => rfl
  | cons c cs ih => exact ih _

/-- The program's promise about where it adds includes location 0. -/
theorem Board.placed_of_legal {B : Board} {cs : List Command}
    (h : Board.machine.Legal B cs) : ∀ c ∈ cs, c.Placed := by
  induction cs generalizing B with
  | nil => simp
  | cons c cs ih =>
      intro c' hc'
      rcases List.mem_cons.1 hc' with rfl | hRest
      · cases c' with
        | add user => exact h.1.1
        | _ => trivial
      · exact ih h.2 c' hRest

/--
**When the display is right.**  From the cleared array, for every sequence of
calls that adds a blinker only at a cell other than 0 that has none: after
every part of it each cell of a blinker shows the character its status says, if
and only if no call synchronises a blinker with one that is on.
-/
theorem display_iff (vmem : Nat → BitVec 8) (cs : List Command)
    (hLegal : Board.machine.Legal ⟨[], vmem⟩ cs) :
    (∀ seen, seen <+: cs → ∃ f rs,
        (BlinkState.initial vmem).runs cells seen = some (f, rs) ∧ f.Mirrored) ↔
      Board.machine.Always Board.SyncShows ⟨[], vmem⟩ cs := by
  have hPlaced := Board.placed_of_legal hLegal
  have hConcrete : ∀ seen, seen <+: cs →
      ((∃ f rs, (BlinkState.initial vmem).runs cells seen = some (f, rs) ∧
          f.Mirrored) ↔ (Board.machine.run ⟨[], vmem⟩ seen).Mirrored) := by
    intro seen hSeen
    obtain ⟨f, hRun, hHolds⟩ := (holds_initial vmem).runs (Nat.le_refl cells)
      fun c hc => hPlaced c (hSeen.subset hc)
    rw [← Board.runs_fst, ← hHolds.mirrored_iff]
    constructor
    · rintro ⟨f', rs, hRun', hMirrored⟩
      rw [hRun] at hRun'
      cases hRun'
      exact hMirrored
    · intro hMirrored
      exact ⟨f, _, hRun, hMirrored⟩
  have hEmpty : Board.Mirrored ⟨[], vmem⟩ := by simp [Board.Mirrored]
  have hApart : Board.Apart ⟨[], vmem⟩ := by simp [Board.Apart]
  rw [← Board.machine.always_iff_of_invariant
    (I := fun B : Board => B.Mirrored ∧ B.Apart)
    (p := fun (B : Board) (c : Command) => (B.perform c).1.Mirrored)
    (fun B c hInv hStep hSync =>
      have hNext := hInv.1.perform hInv.2 hStep hSync
      ⟨hNext, hNext, hInv.2.perform hStep⟩)
    (fun B c _ _ hNext => hNext.syncShows) cs _ ⟨hEmpty, hApart⟩ hLegal]
  have hStates := Board.machine.always_step_iff (P := Board.Mirrored) cs _ hEmpty
  refine Iff.trans ?_ hStates.symm
  constructor
  · intro hAll seen hSeen
    exact (hConcrete seen hSeen).1 (hAll seen hSeen)
  · intro hAll seen hSeen
    exact (hConcrete seen hSeen).2 (hAll seen hSeen)

/-- A blinker that is on, synchronised with another that is on: the display
is wrong after it. -/
theorem display_iff_sync_on :
    Board.machine.Legal ⟨[], fun _ => 0#8⟩
      [.add ⟨40#16, 65#8, 66#8, 15#16, 15#16, 0#16, 0#16⟩,
        .add ⟨540#16, 73#8, 77#8, 7#16, 6#16, 0#16, 0#16⟩, .sync 2621980#32] ∧
    ¬ ∀ seen, seen <+: [.add ⟨40#16, 65#8, 66#8, 15#16, 15#16, 0#16, 0#16⟩,
        .add ⟨540#16, 73#8, 77#8, 7#16, 6#16, 0#16, 0#16⟩, .sync 2621980#32] →
      ∃ f rs, (BlinkState.initial fun _ => 0#8).runs cells seen = some (f, rs) ∧
        f.Mirrored := by
  have hLegal : Board.machine.Legal ⟨[], fun _ => 0#8⟩
      [.add ⟨40#16, 65#8, 66#8, 15#16, 15#16, 0#16, 0#16⟩,
        .add ⟨540#16, 73#8, 77#8, 7#16, 6#16, 0#16, 0#16⟩, .sync 2621980#32] := by
    refine ⟨⟨by decide, by decide⟩, ⟨by decide, by decide⟩, trivial, trivial⟩
  refine ⟨hLegal, fun hAll => ?_⟩
  have hSync := ((display_iff _ _ hLegal).1 hAll).2.2.1
  rcases hSync ⟨40#16, 65#8, 66#8, 15#16, 15#16, 15#16, 1#16⟩
    ⟨540#16, 73#8, 77#8, 7#16, 6#16, 7#16, 1#16⟩ (by decide) (by decide) with h | h
  · exact absurd h (by decide)
  · exact absurd h (by decide)

/-! ## What is written -/

/-- A byte that is no character of the screen. -/
def OffScreen (k : Nat) : Prop := k % 2 = 1 ∨ 2 * cells ≤ k

/-- Every blinker of the list is on the screen. -/
def Board.OnScreen (B : Board) : Prop := ∀ b ∈ B.blinkers, b.onScreen = true

private theorem poke_offScreen {location : BitVec 16} (hOn : location.toNat < cells)
    (vmem : Nat → BitVec 8) (c : BitVec 8) {k : Nat} (hOff : OffScreen k) :
    poke vmem location c k = vmem k := by
  apply Function.update_of_ne
  rcases hOff with h | h <;> omega

private theorem foldl_tickScreen_offScreen {bs : List Blinker}
    (hOn : ∀ b ∈ bs, b.onScreen = true) (vmem : Nat → BitVec 8) {k : Nat}
    (hOff : OffScreen k) : bs.foldl tickScreen vmem k = vmem k := by
  induction bs generalizing vmem with
  | nil => rfl
  | cons b bs ih =>
      have hHere : b.location.toNat < cells := by
        simpa [Blinker.onScreen] using hOn b (by simp)
      rw [List.foldl_cons, ih fun b' hb' => hOn b' (by simp [hb'])]
      rw [tickScreen]
      split
      · exact poke_offScreen hHere _ _ hOff
      · rfl

theorem Board.OnScreen.perform {B : Board} (h : B.OnScreen) (c : Command) :
    (B.perform c).1.OnScreen ∧
      ∀ k, OffScreen k → (B.perform c).1.vmem k = B.vmem k := by
  cases c with
  | add user =>
      show (B.add user).1.OnScreen ∧ ∀ k, _ → (B.add user).1.vmem k = _
      rw [Board.add]
      split
      · next hAdd =>
          refine ⟨fun b hb => ?_, fun k hOff => ?_⟩
          · rcases List.mem_cons.1 hb with rfl | hRest
            · exact hAdd.1
            · exact h b hRest
          · exact poke_offScreen (by simpa [Blinker.onScreen] using hAdd.1) _ _ hOff
      · exact ⟨h, fun _ _ => rfl⟩
  | remove arg =>
      show (B.remove _).1.OnScreen ∧ ∀ k, _ → (B.remove _).1.vmem k = _
      rw [Board.remove]
      split
      · exact ⟨h, fun _ _ => rfl⟩
      · exact ⟨fun b hb => h b (List.mem_of_mem_eraseP hb), fun _ _ => rfl⟩
  | find location => exact ⟨h, fun _ _ => rfl⟩
  | sync arg =>
      show (B.sync _ _).1.OnScreen ∧ ∀ k, _ → (B.sync _ _).1.vmem k = _
      rw [Board.sync]
      split
      · next src dst hSrc hDst =>
          refine ⟨fun b hb => ?_, fun k hOff => ?_⟩
          · have hIn : b.location ∈ (mapFirst _ (fun b => b.synced src)
                B.blinkers).map Blinker.location := List.mem_map.2 ⟨b, hb, rfl⟩
            rw [mapFirst_map (g := fun b => b.synced src) _ fun _ => rfl] at hIn
            obtain ⟨b', hb', hEq⟩ := List.mem_map.1 hIn
            rw [Blinker.onScreen, ← hEq]
            exact h b' hb'
          · have hOn := h dst (List.mem_of_find?_eq_some hDst)
            rw [← find_location hDst]
            exact poke_offScreen (by simpa [Blinker.onScreen] using hOn) _ _ hOff
      · exact ⟨h, fun _ _ => rfl⟩
  | tasklet =>
      refine ⟨fun b hb => ?_, fun k hOff =>
        foldl_tickScreen_offScreen h B.vmem hOff⟩
      obtain ⟨b', hb', rfl⟩ := List.mem_map.1 hb
      rw [Blinker.onScreen, Blinker.tick_location]
      exact h b' hb'

theorem Board.OnScreen.run {B : Board} (h : B.OnScreen) (cs : List Command)
    {k : Nat} (hOff : OffScreen k) : (B.runs cs).1.vmem k = B.vmem k := by
  induction cs generalizing B with
  | nil => rfl
  | cons c cs ih =>
      obtain ⟨hNext, hSame⟩ := h.perform c
      exact (ih hNext).trans (hSame k hOff)

/--
**Only characters of the screen are written.**  From the cleared array, for
every sequence of calls that adds no blinker at location 0, the attribute bytes
and everything outside the 80 by 25 cells are as before.
-/
theorem vmem_frame (vmem : Nat → BitVec 8) {cs : List Command}
    (hPlaced : ∀ c ∈ cs, c.Placed) :
    ∃ f rs, (BlinkState.initial vmem).runs cells cs = some (f, rs) ∧
      ∀ k, OffScreen k → f.vmem k = vmem k := by
  obtain ⟨f, hRun, as, -, -, hScreen⟩ :=
    (holds_initial vmem).runs (Nat.le_refl cells) hPlaced
  refine ⟨f, _, hRun, fun k hOff => ?_⟩
  rw [hScreen]
  exact Board.OnScreen.run (by simp [Board.OnScreen]) cs hOff

/-- The last cell of the screen blinks. -/
theorem vmem_frame_last_cell :
    ∃ f rs, (BlinkState.initial fun _ => 7#8).runs cells
        [.add ⟨1999#16, 65#8, 66#8, 1#16, 1#16, 0#16, 0#16⟩, .tasklet] =
        some (f, rs) ∧
      ∀ k, OffScreen k → f.vmem k = 7#8 :=
  vmem_frame (fun _ => 7#8) (by simp [Command.Placed])

end CompE.Fish
