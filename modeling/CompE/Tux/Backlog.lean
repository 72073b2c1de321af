import CompE.Tux.LineDiscipline

/-!
# Packets that wait

The callback looks at twelve bytes, and is called once for each call of
`tuxctl_ldisc_rcv_buf`, however many bytes that brings.  What is behind the
twelve stays in the ring until the next call.  `tux_handled_iff` says in which
runs no packet ever waits.
-/

namespace CompE.Tux

open CompE.Library

/-- The size of `packet` in the callback. -/
def packetSize : Nat := 12

/-- What is left of bytes when their packets, and the bytes that cannot start
one, have been taken. -/
def unparsed : List Byte → List Byte
  | p0 :: p1 :: p2 :: rest =>
      if framed p0 p1 p2 then unparsed rest else unparsed (p1 :: p2 :: rest)
  | xs => xs

/-- Every packet of the bytes received has been handled, and at most two bytes
wait for more. -/
structure Handled (s : Ldisc) (cps : List (List Byte)) : Prop where
  packets : tuxMachine.events s cps = parse cps.flatten
  tail : (tuxMachine.run s cps).pending.length ≤ 2

/-- The callback gets through the bytes that are waiting: there are not more than
fit into `packet`, or what it leaves over of these and the bytes behind are two at
most. -/
def Drains (s : Ldisc) (cp : List Byte) : Prop :=
  let waiting := s.pending ++ cp
  (unparsed (waiting.take packetSize)).length + (waiting.length - packetSize) ≤ 2

instance (s : Ldisc) (cp : List Byte) : Decidable (Drains s cp) :=
  inferInstanceAs (Decidable (_ ≤ _))

/-! ## What is left over -/

private theorem unparsed_of_short {xs : List Byte} (h : xs.length ≤ 2) : unparsed xs = xs := by
  match xs, h with
  | [], _ => rfl
  | [_], _ => rfl
  | [_, _], _ => rfl

private theorem parse_of_short {xs : List Byte} (h : xs.length ≤ 2) : parse xs = [] := by
  match xs, h with
  | [], _ => rfl
  | [_], _ => rfl
  | [_, _], _ => rfl

private theorem unparsed_of_scans {xs rest : List Byte} {ps : List Packet}
    (h : tuxScanner.Scans xs ps rest) : unparsed xs = unparsed rest := by
  induction h with
  | refl xs => rfl
  | step hNext _ ih =>
      rename_i xs mid rest ps qs _
      match xs, hNext with
      | p0 :: p1 :: p2 :: tail, hNext =>
          simp only [tuxScanner, tuxNext] at hNext
          split at hNext
          · next hFramed =>
              rw [Option.some.injEq, Prod.mk.injEq] at hNext
              obtain ⟨rfl, rfl⟩ := hNext
              rw [unparsed, if_pos hFramed, ih]
          · next hFramed =>
              rw [Option.some.injEq, Prod.mk.injEq] at hNext
              obtain ⟨rfl, rfl⟩ := hNext
              rw [unparsed, if_neg hFramed, ih]

theorem RxRing.contents_length (rx : RxRing) : rx.contents.length = rx.used :=
  Ring.window_length _ _ _ _

theorem Ldisc.leftovers_length (s : Ldisc) : s.leftovers.length = s.nSaved := by
  rw [Ldisc.leftovers, List.length_map, List.length_range]

/-! ## One call -/

/-- The callback takes the first bytes that are waiting: as many as fit into
`packet`, or all of them. -/
theorem Ldisc.Inv.pending_split {s : Ldisc} (h : s.Inv) :
    s.pending.take packetSize =
        s.leftovers ++ (ldiscGet s.rx (12 - s.nSaved)).1 ∧
      s.pending.drop packetSize = (ldiscGet s.rx (12 - s.nSaved)).2.contents := by
  obtain ⟨_, hGet⟩ := ldiscGet_contents (12 - s.nSaved) s.rx h.ring
  have hTaken := ldiscGet_length (12 - s.nSaved) s.rx h.ring
  have hFew := h.few
  have hFront : (s.leftovers ++ (ldiscGet s.rx (12 - s.nSaved)).1).length =
      min 12 (s.nSaved + s.rx.used) := by
    rw [List.length_append, s.leftovers_length, hTaken]
    omega
  have hSplit : s.pending =
      (s.leftovers ++ (ldiscGet s.rx (12 - s.nSaved)).1) ++
        (ldiscGet s.rx (12 - s.nSaved)).2.contents := by
    rw [Ldisc.pending, hGet, List.append_assoc]
  by_cases hMore : 12 ≤ s.nSaved + s.rx.used
  · have hFull : (s.leftovers ++ (ldiscGet s.rx (12 - s.nSaved)).1).length =
        packetSize := by
      rw [hFront, packetSize]
      omega
    exact ⟨by rw [hSplit, List.take_left' hFull],
      by rw [hSplit, List.drop_left' hFull]⟩
  · have hRear : (ldiscGet s.rx (12 - s.nSaved)).2.contents = [] := by
      have hSum := congrArg List.length hGet
      rw [List.length_append, s.rx.contents_length, hTaken] at hSum
      exact List.eq_nil_of_length_eq_zero (by omega)
    have hShort : (s.leftovers ++ (ldiscGet s.rx (12 - s.nSaved)).1).length ≤
        packetSize := by
      rw [hFront, packetSize]
      omega
    rw [hSplit, hRear, List.append_nil]
    exact ⟨List.take_of_length_le hShort, List.drop_of_length_le hShort⟩

/-- It leaves what is unparsed of these, and the others. -/
theorem Ldisc.Inv.dataCallback_pending {s : Ldisc} (h : s.Inv) :
    (Tux.dataCallback s).2.pending =
      unparsed (s.pending.take packetSize) ++ s.pending.drop packetSize := by
  obtain ⟨hRx, hFew, hScan⟩ := dataCallback_front s
  have hShort := unparsed_of_short
    (by rw [Ldisc.leftovers_length]; exact hFew)
  obtain ⟨hTake, hDrop⟩ := h.pending_split
  rw [Ldisc.pending, hRx, ← hShort, ← unparsed_of_scans hScan, hTake, hDrop]

/-- So at most two bytes wait after a call if and only if the callback drains what
waits before it. -/
theorem Ldisc.Inv.pending_le_two_iff {s : Ldisc} (h : s.Inv) {cp : List Byte}
    (hFits : Fits s cp) :
    (tuxMachine.step s cp).pending.length ≤ 2 ↔ Drains s cp := by
  obtain ⟨hRing, hContents⟩ := rcvLoop_contents cp s.rx h.ring hFits
  have hStored : Ldisc.Inv { s with rx := rcvLoop s.rx cp } := ⟨hRing, h.few⟩
  have hWaiting :
      Ldisc.pending { s with rx := rcvLoop s.rx cp } = s.pending ++ cp := by
    rw [Ldisc.pending, Ldisc.pending, List.append_assoc, ← hContents]
    rfl
  have hLeft := hStored.dataCallback_pending
  rw [hWaiting] at hLeft
  show (Tux.dataCallback { s with rx := rcvLoop s.rx cp }).2.pending.length ≤ 2 ↔ _
  rw [hLeft, List.length_append, List.length_drop]
  exact Iff.rfl

/-! ## A run -/

/-- When at most two bytes wait, no packet does. -/
theorem handled_iff_pending {s : Ldisc} (hFresh : s.Fresh) {cps : List (List Byte)}
    (hLegal : tuxMachine.Legal s cps) :
    Handled s cps ↔ (tuxMachine.run s cps).pending.length ≤ 2 := by
  constructor
  · intro hHandled
    exact hHandled.tail
  · intro hFew
    have hParse := parse_of_scans (rcvBuf_scans cps s hFresh.inv hLegal)
    rw [hFresh.pending, List.nil_append, parse_of_short hFew, List.append_nil]
      at hParse
    exact ⟨hParse.symm, hFew⟩

/--
**When no packet is left waiting.**  In a run that the ring has room for, every
packet of the bytes received is handled after each call, but for a tail of at most
two bytes, exactly when the callback gets through what is waiting in each call.
-/
theorem tux_handled_iff {s : Ldisc} (hFresh : s.Fresh) (cps : List (List Byte))
    (hLegal : tuxMachine.Legal s cps) :
    (∀ seen, seen <+: cps → Handled s seen) ↔ tuxMachine.Always Drains s cps := by
  have hHandled : (∀ seen, seen <+: cps → Handled s seen) ↔
      ∀ seen, seen <+: cps → (tuxMachine.run s seen).pending.length ≤ 2 := by
    refine forall₂_congr ?_
    intro seen hSeen
    obtain ⟨rest, rfl⟩ := hSeen
    exact handled_iff_pending hFresh ((tuxMachine.legal_append s seen rest).mp hLegal).1
  have hNone : s.pending.length ≤ 2 := by
    rw [hFresh.pending]
    exact Nat.zero_le 2
  have hSteps := tuxMachine.always_step_iff
    (P := fun t : Ldisc => t.pending.length ≤ 2) cps s hNone
  rw [hHandled, ← hSteps]
  apply tuxMachine.always_iff_of_invariant (I := Ldisc.Inv) _ _ cps s hFresh.inv hLegal
  · intro s cp hInv hFits hDrains
    exact ⟨(hInv.pending_le_two_iff hFits).mpr hDrains, (hInv.rcvBuf hFits).1⟩
  · intro s cp hInv hFits hFew
    exact (hInv.pending_le_two_iff hFits).mp hFew

/-- Two calls of ten bytes, three packets and a byte of the next each. -/
theorem tux_handled_tens :
    let s : Ldisc := ⟨⟨fun _ => 0, 60, 60⟩, fun _ => 0, 0⟩
    let cps : List (List Byte) :=
      [[0x48, 0x8F, 0xBF, 0x48, 0x81, 0x82, 0x48, 0x83, 0x84, 0x48],
        [0x85, 0x86, 0x48, 0x87, 0x88, 0x48, 0x89, 0x8A, 0x48, 0x8B]]
    ∀ seen, seen <+: cps → Handled s seen :=
  (tux_handled_iff ⟨⟨rfl, by decide⟩, rfl⟩ _ (by
      show tuxMachine.Always Fits _ _
      decide)).mpr (by decide)

/-- Five packets in one call: the last one stays in the ring. -/
theorem tux_fifth_packet_waits :
    let s : Ldisc := ⟨⟨fun _ => 0, 0, 0⟩, fun _ => 0, 0⟩
    let cps : List (List Byte) :=
      [[0x48, 0x81, 0x82, 0x48, 0x83, 0x84, 0x48, 0x85, 0x86, 0x48, 0x87, 0x88,
        0x48, 0x89, 0x8A]]
    s.Fresh ∧ tuxMachine.Legal s cps ∧ ¬Handled s cps ∧
      (0x48, 0x89, 0x8A) ∈ parse cps.flatten ∧
      (0x48, 0x89, 0x8A) ∉ tuxMachine.events s cps := by
  refine ⟨⟨⟨rfl, by decide⟩, rfl⟩, ?_, ?_, by decide, by decide⟩
  · show tuxMachine.Always Fits _ _
    decide
  · intro hHandled
    exact absurd hHandled.tail (by decide)

end CompE.Tux
