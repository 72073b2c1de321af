import CompE.Library.Machine
import CompE.Library.Ring
import CompE.Library.Scanner

/-!
# Receiving from the Tux controller

`tuxctl_ldisc_rcv_buf` puts the bytes from the serial driver into a ring of 64
and calls `tuxctl_ldisc_data_callback`.  That takes up to twelve bytes together
with those saved from its last call, looks for packets, drops what cannot start
one, and saves the last bytes for its next call.

`tuxScanner` is the rule of the packets on a plain list of bytes.  However the
stream is cut into calls, they make steps of it (`rcvBuf_scans`).
-/

namespace CompE.Tux

open CompE.Library

abbrev Byte := BitVec 8

/-- The three bytes given to `tuxctl_handle_packet`. -/
abbrev Packet := Byte × Byte × Byte

def tuxctlBufsize : Nat := 64

/-- The receiving half of `tuxctl_ldisc_data_t`. -/
structure RxRing where
  rxBuf : Nat → Byte
  rxStart : Nat
  rxEnd : Nat

/-- The line discipline, with the static variables of the callback. -/
structure Ldisc where
  rx : RxRing
  saved : Nat → Byte
  nSaved : Nat

/-! ## The ring -/

/-- `buf_used`. -/
def bufUsed (start stop : Nat) : Nat :=
  if start ≤ stop then stop - start else tuxctlBufsize + stop - start

/-- `buf_empty`. -/
def bufEmpty (start stop : Nat) : Bool := start == stop

/-- `buf_full`. -/
def bufFull (start stop : Nat) : Bool := (stop + 1) % tuxctlBufsize == start

/-- `buf_incidx`. -/
def bufIncidx (idx : Nat) : Nat := (idx + 1) % tuxctlBufsize

/-- The loop of `tuxctl_ldisc_rcv_buf`: the bytes that fit. -/
def rcvLoop (rx : RxRing) : List Byte → RxRing
  | [] => rx
  | b :: cp =>
      if bufFull rx.rxStart rx.rxEnd then rx
      else
        rcvLoop
          { rx with
            rxBuf := Function.update rx.rxBuf rx.rxEnd b
            rxEnd := bufIncidx rx.rxEnd } cp

/-- `tuxctl_ldisc_get`: up to `n` bytes. -/
def ldiscGet (rx : RxRing) : Nat → List Byte × RxRing
  | 0 => ([], rx)
  | n + 1 =>
      if bufEmpty rx.rxStart rx.rxEnd then ([], rx)
      else
        let r := ldiscGet { rx with rxStart := bufIncidx rx.rxStart } n
        (rx.rxBuf rx.rxStart :: r.1, r.2)

/-! ## The callback -/

/-- The framing bits of a packet. -/
def framed (p0 p1 p2 : Byte) : Bool :=
  p0 &&& 0x80 == 0 && p1 &&& 0x80 != 0 && p2 &&& 0x80 != 0

/-- The loop of `tuxctl_ldisc_data_callback` from index `i` on: the packets
handled and the last index.  Every round adds at least one to the index. -/
def callbackLoop (packet : Nat → Byte) (n : Nat) : Nat → Nat → List Packet × Nat
  | 0, i => ([], i)
  | fuel + 1, i =>
      if i + 2 < n then
        if framed (packet i) (packet (i + 1)) (packet (i + 2)) then
          let r := callbackLoop packet n fuel (i + 3)
          ((packet i, packet (i + 1), packet (i + 2)) :: r.1, r.2)
        else callbackLoop packet n fuel (i + 1)
      else ([], i)

/-- `tuxctl_ldisc_data_callback`: the packets handled, and the state.  The array
of the source is never read behind its first `n` bytes. -/
def dataCallback (s : Ldisc) : List Packet × Ldisc :=
  let got := ldiscGet s.rx (12 - s.nSaved)
  let n := s.nSaved + got.1.length
  let packet : Nat → Byte := fun k =>
    if k < s.nSaved then s.saved k else got.1.getD (k - s.nSaved) 0
  let r := callbackLoop packet n n 0
  (r.1,
    { rx := got.2
      nSaved := n - r.2
      saved := fun j => if j < n - r.2 then packet (r.2 + j) else s.saved j })

/-- `tuxctl_ldisc_rcv_buf`. -/
def rcvBuf (s : Ldisc) (cp : List Byte) : List Packet × Ldisc :=
  dataCallback { s with rx := rcvLoop s.rx cp }

/-- The calls that the ring has room for. -/
def Fits (s : Ldisc) (cp : List Byte) : Prop :=
  bufUsed s.rx.rxStart s.rx.rxEnd + cp.length < tuxctlBufsize

/-- The line discipline over its calls, with the packets handled. -/
def tuxMachine : Machine Ldisc (List Byte) Packet where
  step s cp := (rcvBuf s cp).2
  emit s cp := (rcvBuf s cp).1
  legal := Fits

/-! ## The rule of the packets -/

/-- One step on a list: a packet, or a byte that cannot start one. -/
def tuxNext : List Byte → Option (List Packet × List Byte)
  | p0 :: p1 :: p2 :: rest =>
      if framed p0 p1 p2 then some ([(p0, p1, p2)], rest)
      else some ([], p1 :: p2 :: rest)
  | _ => none

def tuxScanner : Scanner Byte Packet where
  next := tuxNext
  stable := by
    intro xs ps rest ys h
    match xs, h with
    | p0 :: p1 :: p2 :: tail, h =>
        simp only [tuxNext, List.cons_append] at h ⊢
        split at h
        · next hFramed =>
            rw [if_pos hFramed]
            simp only [Option.some.injEq, Prod.mk.injEq] at h ⊢
            obtain ⟨rfl, rfl⟩ := h
            exact ⟨rfl, rfl⟩
        · next hFramed =>
            rw [if_neg hFramed]
            simp only [Option.some.injEq, Prod.mk.injEq] at h ⊢
            obtain ⟨rfl, rfl⟩ := h
            exact ⟨rfl, rfl⟩

/-- Parsing a list at once. -/
def parse : List Byte → List Packet
  | p0 :: p1 :: p2 :: rest =>
      if framed p0 p1 p2 then (p0, p1, p2) :: parse rest
      else parse (p1 :: p2 :: rest)
  | _ => []

/-- Steps of the scanner are steps of the parser. -/
theorem parse_of_scans {xs rest : List Byte} {ps : List Packet}
    (h : tuxScanner.Scans xs ps rest) : parse xs = ps ++ parse rest := by
  induction h with
  | refl xs => rfl
  | step hNext _ ih =>
      rename_i xs mid rest ps qs _
      match xs, hNext with
      | p0 :: p1 :: p2 :: tail, hNext =>
          simp only [tuxScanner, tuxNext] at hNext
          split at hNext
          · next hFramed =>
              rw [Option.some.injEq, Prod.mk.injEq] at hNext
              obtain ⟨rfl, rfl⟩ := hNext
              rw [parse, if_pos hFramed, ih]
              rfl
          · next hFramed =>
              rw [Option.some.injEq, Prod.mk.injEq] at hNext
              obtain ⟨rfl, rfl⟩ := hNext
              rw [parse, if_neg hFramed, ih]
              rfl

/-- What the steps consume gives their packets, also when parsed by itself. -/
theorem parse_consumed {xs rest : List Byte} {ps : List Packet}
    (h : tuxScanner.Scans xs ps rest) :
    ∃ consumed, xs = consumed ++ rest ∧ parse consumed = ps := by
  induction h with
  | refl xs => exact ⟨[], rfl, rfl⟩
  | step hNext _ ih =>
      rename_i xs mid rest ps qs _
      obtain ⟨consumed, hMid, rfl⟩ := ih
      match xs, hNext with
      | p0 :: p1 :: p2 :: tail, hNext =>
          simp only [tuxScanner, tuxNext] at hNext
          split at hNext
          · next hFramed =>
              rw [Option.some.injEq, Prod.mk.injEq] at hNext
              obtain ⟨rfl, rfl⟩ := hNext
              refine ⟨p0 :: p1 :: p2 :: consumed, by rw [hMid]; rfl, ?_⟩
              rw [parse, if_pos hFramed]
              rfl
          · next hFramed =>
              rw [Option.some.injEq, Prod.mk.injEq] at hNext
              obtain ⟨rfl, rfl⟩ := hNext
              refine ⟨p0 :: consumed, by rw [hMid]; rfl, ?_⟩
              match consumed, hMid with
              | [], _ => rfl
              | [_], _ => rfl
              | q1 :: q2 :: more, hMid =>
                  simp only [List.cons_append, List.cons.injEq] at hMid
                  obtain ⟨rfl, rfl, _⟩ := hMid
                  rw [parse, if_neg hFramed]
                  rfl

/-! ## The contents of the ring -/

/-- Indices of the array. -/
structure RxRing.Ok (rx : RxRing) : Prop where
  start : rx.rxStart < tuxctlBufsize
  fin : rx.rxEnd < tuxctlBufsize

/-- The number of bytes in the ring. -/
def RxRing.used (rx : RxRing) : Nat := bufUsed rx.rxStart rx.rxEnd

/-- The bytes in the ring. -/
def RxRing.contents (rx : RxRing) : List Byte :=
  Ring.window rx.rxBuf tuxctlBufsize rx.rxStart rx.used

private theorem bufUsed_cases (start stop : Nat) :
    start ≤ stop ∧ bufUsed start stop = stop - start ∨
      stop < start ∧ bufUsed start stop = 64 + stop - start := by
  unfold bufUsed tuxctlBufsize
  split <;> omega

theorem RxRing.Ok.end_eq {rx : RxRing} (h : rx.Ok) :
    rx.rxEnd = (rx.rxStart + rx.used) % tuxctlBufsize ∧
      rx.used < tuxctlBufsize := by
  have hStart := h.start
  have hEnd := h.fin
  have hUsed := bufUsed_cases rx.rxStart rx.rxEnd
  simp only [RxRing.used, tuxctlBufsize] at *
  omega

theorem RxRing.Ok.full_iff {rx : RxRing} (h : rx.Ok) :
    bufFull rx.rxStart rx.rxEnd = true ↔ rx.used + 1 = tuxctlBufsize := by
  have hStart := h.start
  have hEnd := h.fin
  have hUsed := bufUsed_cases rx.rxStart rx.rxEnd
  simp only [bufFull, beq_iff_eq, RxRing.used, tuxctlBufsize] at *
  omega

theorem RxRing.Ok.empty_iff {rx : RxRing} (h : rx.Ok) :
    bufEmpty rx.rxStart rx.rxEnd = true ↔ rx.used = 0 := by
  have hStart := h.start
  have hEnd := h.fin
  have hUsed := bufUsed_cases rx.rxStart rx.rxEnd
  simp only [bufEmpty, beq_iff_eq, RxRing.used, tuxctlBufsize] at *
  omega

/-- One round of the receiving loop. -/
theorem RxRing.Ok.push {rx : RxRing} (h : rx.Ok) (b : Byte)
    (hRoom : rx.used + 1 < tuxctlBufsize) :
    RxRing.Ok
        { rx with
          rxBuf := Function.update rx.rxBuf rx.rxEnd b
          rxEnd := bufIncidx rx.rxEnd } ∧
      bufUsed rx.rxStart (bufIncidx rx.rxEnd) = rx.used + 1 ∧
      RxRing.contents
          { rx with
            rxBuf := Function.update rx.rxBuf rx.rxEnd b
            rxEnd := bufIncidx rx.rxEnd } = rx.contents ++ [b] := by
  have hStart := h.start
  have hEnd := h.fin
  have hUsed : bufUsed rx.rxStart (bufIncidx rx.rxEnd) = rx.used + 1 := by
    have hOld := bufUsed_cases rx.rxStart rx.rxEnd
    have hNew := bufUsed_cases rx.rxStart (bufIncidx rx.rxEnd)
    simp only [RxRing.used, bufIncidx, tuxctlBufsize] at *
    omega
  refine ⟨⟨hStart, Nat.mod_lt _ (by decide)⟩, hUsed, ?_⟩
  rw [RxRing.contents, RxRing.used, hUsed, RxRing.contents,
    ← Ring.window_push rx.rxBuf rx.rxStart b h.end_eq.2, ← h.end_eq.1]

/-- The bytes that fit are stored. -/
theorem rcvLoop_take (cp : List Byte) :
    ∀ rx : RxRing, rx.Ok → (rcvLoop rx cp).Ok ∧
      (rcvLoop rx cp).contents =
        rx.contents ++ cp.take (tuxctlBufsize - 1 - rx.used) := by
  induction cp with
  | nil =>
      intro rx hOk
      rw [List.take_nil]
      exact ⟨hOk, (List.append_nil _).symm⟩
  | cons b cp ih =>
      intro rx hOk
      rw [rcvLoop]
      by_cases hFull : bufFull rx.rxStart rx.rxEnd = true
      · have hUsed := hOk.full_iff.1 hFull
        have hNone : tuxctlBufsize - 1 - rx.used = 0 := by omega
        rw [if_pos hFull, hNone, List.take_zero]
        exact ⟨hOk, (List.append_nil _).symm⟩
      · have hRoom : rx.used + 1 < tuxctlBufsize := by
          have hUsed := mt hOk.full_iff.2 hFull
          have hLt := hOk.end_eq.2
          omega
        obtain ⟨hNext, hUsed, hPush⟩ := hOk.push b hRoom
        obtain ⟨hEnd, hContents⟩ := ih _ hNext
        have hSome : tuxctlBufsize - 1 - rx.used =
            tuxctlBufsize - 1 - (rx.used + 1) + 1 := by omega
        rw [if_neg hFull]
        refine ⟨hEnd, ?_⟩
        rw [hContents, hPush, RxRing.used, hUsed, hSome, List.take_succ_cons,
          List.append_assoc]
        rfl

theorem rcvLoop_contents (cp : List Byte) (rx : RxRing) (hOk : rx.Ok)
    (hRoom : rx.used + cp.length < tuxctlBufsize) :
    (rcvLoop rx cp).Ok ∧ (rcvLoop rx cp).contents = rx.contents ++ cp := by
  have hAll : cp.take (tuxctlBufsize - 1 - rx.used) = cp :=
    List.take_of_length_le (by omega)
  have hTake := rcvLoop_take cp rx hOk
  rw [hAll] at hTake
  exact hTake

/-- One round of the reading loop. -/
theorem RxRing.Ok.pop {rx : RxRing} (h : rx.Ok) (hSome : rx.used ≠ 0) :
    RxRing.Ok { rx with rxStart := bufIncidx rx.rxStart } ∧
      rx.used = RxRing.used { rx with rxStart := bufIncidx rx.rxStart } + 1 ∧
      rx.contents = rx.rxBuf rx.rxStart ::
        RxRing.contents { rx with rxStart := bufIncidx rx.rxStart } := by
  have hStart := h.start
  have hEnd := h.fin
  have hUsed : rx.used = bufUsed (bufIncidx rx.rxStart) rx.rxEnd + 1 := by
    have hOld := bufUsed_cases rx.rxStart rx.rxEnd
    have hNew := bufUsed_cases (bufIncidx rx.rxStart) rx.rxEnd
    simp only [RxRing.used, bufIncidx, tuxctlBufsize] at *
    omega
  refine ⟨⟨Nat.mod_lt _ (by decide), hEnd⟩, hUsed, ?_⟩
  rw [RxRing.contents, hUsed, Ring.window_succ, Nat.mod_eq_of_lt hStart,
    ← Ring.window_mod]
  rfl

theorem ldiscGet_contents (n : Nat) :
    ∀ rx : RxRing, rx.Ok → (ldiscGet rx n).2.Ok ∧
      rx.contents = (ldiscGet rx n).1 ++ (ldiscGet rx n).2.contents := by
  induction n with
  | zero => intro rx hOk; exact ⟨hOk, rfl⟩
  | succ n ih =>
      intro rx hOk
      rw [ldiscGet]
      by_cases hEmpty : bufEmpty rx.rxStart rx.rxEnd = true
      · rw [if_pos hEmpty]
        exact ⟨hOk, rfl⟩
      · rw [if_neg hEmpty]
        obtain ⟨hNext, _, hPop⟩ :=
          hOk.pop (fun hZero => hEmpty (hOk.empty_iff.2 hZero))
        obtain ⟨hEnd, hRest⟩ := ih _ hNext
        refine ⟨hEnd, ?_⟩
        rw [hPop, hRest]
        rfl

/-- As many bytes are read as are asked for, or as there are. -/
theorem ldiscGet_length (n : Nat) :
    ∀ rx : RxRing, rx.Ok → (ldiscGet rx n).1.length = min n rx.used := by
  induction n with
  | zero => intro rx _; exact (Nat.zero_min _).symm
  | succ n ih =>
      intro rx hOk
      rw [ldiscGet]
      by_cases hEmpty : bufEmpty rx.rxStart rx.rxEnd = true
      · rw [if_pos hEmpty, hOk.empty_iff.1 hEmpty, Nat.min_zero]
        rfl
      · have hSome : rx.used ≠ 0 := fun hZero => hEmpty (hOk.empty_iff.2 hZero)
        obtain ⟨hNext, hUsed, _⟩ := hOk.pop hSome
        rw [if_neg hEmpty, List.length_cons, ih _ hNext]
        omega

/-! ## The callback as a scan -/

/-- The bytes of an array from index `i` to `n`. -/
def bytes (packet : Nat → Byte) (i n : Nat) : List Byte :=
  (List.range (n - i)).map fun j => packet (i + j)

private theorem bytes_cons {i n : Nat} (packet : Nat → Byte) (h : i < n) :
    bytes packet i n = packet i :: bytes packet (i + 1) n := by
  have hLength : n - i = n - (i + 1) + 1 := by omega
  rw [bytes, hLength, List.range_succ_eq_map, List.map_cons, List.map_map]
  congr 1
  apply List.map_congr_left
  intro j _
  rw [Function.comp_apply, Nat.succ_eq_add_one]
  congr 1
  omega

/-- The loop scans the array, up to its last two bytes at least. -/
theorem callbackLoop_scans (packet : Nat → Byte) (n fuel : Nat) :
    ∀ i, i ≤ n → n ≤ i + fuel →
      (callbackLoop packet n fuel i).2 ≤ n ∧
        n ≤ (callbackLoop packet n fuel i).2 + 2 ∧
        tuxScanner.Scans (bytes packet i n) (callbackLoop packet n fuel i).1
          (bytes packet (callbackLoop packet n fuel i).2 n) := by
  induction fuel with
  | zero =>
      intro i hi hFuel
      exact ⟨hi, by simp only [callbackLoop]; omega, Scanner.Scans.refl _⟩
  | succ fuel ih =>
      intro i hi hFuel
      rw [callbackLoop]
      by_cases hMore : i + 2 < n
      · have hBytes : bytes packet i n =
            packet i :: packet (i + 1) :: packet (i + 2) ::
              bytes packet (i + 3) n := by
          rw [bytes_cons packet (by omega), bytes_cons packet (by omega),
            bytes_cons packet (by omega)]
        rw [if_pos hMore]
        by_cases hFramed :
            framed (packet i) (packet (i + 1)) (packet (i + 2)) = true
        · obtain ⟨hLast, hLeft, hScan⟩ := ih (i + 3) (by omega) (by omega)
          rw [if_pos hFramed]
          refine ⟨hLast, hLeft, ?_⟩
          have hStep : tuxScanner.next (bytes packet i n) =
              some ([(packet i, packet (i + 1), packet (i + 2))],
                bytes packet (i + 3) n) := by
            rw [hBytes]
            simp only [tuxScanner, tuxNext, if_pos hFramed]
          exact Scanner.Scans.step hStep hScan
        · obtain ⟨hLast, hLeft, hScan⟩ := ih (i + 1) (by omega) (by omega)
          rw [if_neg hFramed]
          refine ⟨hLast, hLeft, ?_⟩
          have hStep : tuxScanner.next (bytes packet i n) =
              some ([], bytes packet (i + 1) n) := by
            rw [hBytes, bytes_cons packet (show i + 1 < n by omega),
              bytes_cons packet (show i + 1 + 1 < n by omega)]
            simp only [tuxScanner, tuxNext, if_neg hFramed]
          exact Scanner.Scans.step hStep hScan
      · rw [if_neg hMore]
        exact ⟨hi, by simp only; omega, Scanner.Scans.refl _⟩

/-- The array of the callback: the saved bytes and those read after them. -/
theorem bytes_packet (saved : Nat → Byte) (a : Nat) (got : List Byte) :
    bytes (fun k => if k < a then saved k else got.getD (k - a) 0) 0
        (a + got.length) =
      (List.range a).map saved ++ got := by
  rw [bytes, Nat.sub_zero, List.range_add, List.map_append, List.map_map]
  congr 1
  · apply List.map_congr_left
    intro k hk
    rw [Nat.zero_add, if_pos (List.mem_range.1 hk)]
  · apply List.ext_getElem
    · simp
    · intro k _ hk
      have hBehind : ¬ a + k < a := by omega
      simp [hk, hBehind]

/-- The bytes saved from the last call. -/
def Ldisc.leftovers (s : Ldisc) : List Byte := (List.range s.nSaved).map s.saved

/-- What has been received and not been consumed. -/
def Ldisc.pending (s : Ldisc) : List Byte := s.leftovers ++ s.rx.contents

/-- Between two calls. -/
structure Ldisc.Inv (s : Ldisc) : Prop where
  ring : s.rx.Ok
  few : s.nSaved ≤ 2

/-- The callback scans the bytes saved and those read, and saves what it leaves
of them. -/
theorem dataCallback_front (s : Ldisc) :
    (dataCallback s).2.rx = (ldiscGet s.rx (12 - s.nSaved)).2 ∧
      (dataCallback s).2.nSaved ≤ 2 ∧
      tuxScanner.Scans (s.leftovers ++ (ldiscGet s.rx (12 - s.nSaved)).1)
        (dataCallback s).1 (dataCallback s).2.leftovers := by
  let got := (ldiscGet s.rx (12 - s.nSaved)).1
  let n := s.nSaved + got.length
  let packet : Nat → Byte := fun k =>
    if k < s.nSaved then s.saved k else got.getD (k - s.nSaved) 0
  let last := (callbackLoop packet n n 0).2
  obtain ⟨hLast, hLeft, hScan⟩ :=
    callbackLoop_scans packet n n 0 (Nat.zero_le n) (by omega)
  have hFront : bytes packet 0 n = s.leftovers ++ got :=
    bytes_packet s.saved s.nSaved got
  have hRear : (dataCallback s).2.leftovers = bytes packet last n := by
    apply List.map_congr_left
    intro j hj
    exact if_pos (List.mem_range.1 hj)
  refine ⟨rfl, ?_, ?_⟩
  · show n - last ≤ 2
    omega
  · rw [← hFront, hRear]
    exact hScan

theorem Ldisc.Inv.dataCallback {s : Ldisc} (h : s.Inv) :
    (dataCallback s).2.Inv ∧
      tuxScanner.Scans s.pending (dataCallback s).1
        (dataCallback s).2.pending := by
  obtain ⟨hRing, hGet⟩ := ldiscGet_contents (12 - s.nSaved) s.rx h.ring
  obtain ⟨hRx, hFew, hScan⟩ := dataCallback_front s
  refine ⟨⟨by rw [hRx]; exact hRing, hFew⟩, ?_⟩
  rw [Ldisc.pending, Ldisc.pending, hGet, ← List.append_assoc, hRx]
  exact hScan.append _

/-- One call scans on in what it leaves and what it brings. -/
theorem Ldisc.Inv.rcvBuf {s : Ldisc} (h : s.Inv) {cp : List Byte}
    (hFits : Fits s cp) :
    (rcvBuf s cp).2.Inv ∧
      tuxScanner.Scans (s.pending ++ cp) (rcvBuf s cp).1
        (rcvBuf s cp).2.pending := by
  obtain ⟨hRing, hContents⟩ := rcvLoop_contents cp s.rx h.ring hFits
  have hStored : Ldisc.Inv { s with rx := rcvLoop s.rx cp } := ⟨hRing, h.few⟩
  obtain ⟨hInv, hScan⟩ := hStored.dataCallback
  refine ⟨hInv, ?_⟩
  rw [Ldisc.pending, List.append_assoc, ← hContents]
  exact hScan

/-- The calls of a run scan the stream that they bring. -/
theorem rcvBuf_scans (cps : List (List Byte)) :
    ∀ s : Ldisc, s.Inv → tuxMachine.Legal s cps →
      tuxScanner.Scans (s.pending ++ cps.flatten) (tuxMachine.events s cps)
        (tuxMachine.run s cps).pending := by
  induction cps with
  | nil =>
      intro s _ _
      rw [List.flatten_nil, List.append_nil]
      exact Scanner.Scans.refl s.pending
  | cons cp cps ih =>
      intro s hInv hLegal
      obtain ⟨hNext, hScan⟩ := hInv.rcvBuf hLegal.1
      have hRest := ih (tuxMachine.step s cp) hNext hLegal.2
      rw [List.flatten_cons, ← List.append_assoc]
      exact (hScan.append cps.flatten).trans hRest

/-- Nothing saved, and an empty ring at any place. -/
structure Ldisc.Fresh (s : Ldisc) : Prop where
  ring : s.rx.rxStart = s.rx.rxEnd ∧ s.rx.rxEnd < tuxctlBufsize
  nSaved : s.nSaved = 0

theorem Ldisc.Fresh.inv {s : Ldisc} (h : s.Fresh) : s.Inv where
  ring := ⟨by rw [h.ring.1]; exact h.ring.2, h.ring.2⟩
  few := by rw [h.nSaved]; exact Nat.zero_le 2

theorem Ldisc.Fresh.pending {s : Ldisc} (h : s.Fresh) : s.pending = [] := by
  have hUsed : s.rx.used = 0 := by
    rw [RxRing.used, h.ring.1, bufUsed, if_pos (Nat.le_refl _), Nat.sub_self]
  rw [Ldisc.pending, Ldisc.leftovers, h.nSaved, RxRing.contents, hUsed]
  rfl

/--
**Framing does not depend on the chunks.**  However a stream is cut into calls
that the ring has room for: the bytes consumed and then those saved and in the
ring are the stream; the packets handled are those that parsing the consumed
bytes gives, and the first ones that parsing the whole stream gives; and the
packets of two ways of cutting it are one a prefix of the other.
-/
theorem tux_framing {s : Ldisc} (hFresh : s.Fresh) (cps : List (List Byte))
    (hLegal : tuxMachine.Legal s cps) :
    (∃ consumed, cps.flatten =
        consumed ++ ((tuxMachine.run s cps).leftovers ++
          (tuxMachine.run s cps).rx.contents) ∧
      parse consumed = tuxMachine.events s cps) ∧
    parse cps.flatten = tuxMachine.events s cps ++
      parse ((tuxMachine.run s cps).leftovers ++
        (tuxMachine.run s cps).rx.contents) ∧
    ∀ (s' : Ldisc) (cps' : List (List Byte)), s'.Fresh →
      tuxMachine.Legal s' cps' → cps'.flatten = cps.flatten →
        tuxMachine.events s cps <+: tuxMachine.events s' cps' ∨
          tuxMachine.events s' cps' <+: tuxMachine.events s cps := by
  have hScan := rcvBuf_scans cps s hFresh.inv hLegal
  rw [hFresh.pending, List.nil_append] at hScan
  refine ⟨parse_consumed hScan, parse_of_scans hScan, ?_⟩
  intro s' cps' hFresh' hLegal' hSame
  have hScan' := rcvBuf_scans cps' s' hFresh'.inv hLegal'
  rw [hFresh'.pending, List.nil_append, hSame] at hScan'
  exact hScan.prefix_or hScan'

instance (s : Ldisc) (cp : List Byte) : Decidable (Fits s cp) :=
  inferInstanceAs (Decidable (_ < _))

/-- Two packets with a stray byte between, cut inside each of them, in a ring
that starts near its end. -/
theorem tux_framing_cut :
    let s : Ldisc := ⟨⟨fun _ => 0, 62, 62⟩, fun _ => 0, 0⟩
    let cps : List (List Byte) :=
      [[0x48, 0x8F], [0xBF, 0x7F, 0x48, 0x81], [0x82]]
    parse cps.flatten = tuxMachine.events s cps ++
        parse ((tuxMachine.run s cps).leftovers ++
          (tuxMachine.run s cps).rx.contents) ∧
      tuxMachine.events s cps =
        [(0x48, 0x8F, 0xBF), (0x48, 0x81, 0x82)] :=
  ⟨(tux_framing ⟨⟨rfl, by decide⟩, rfl⟩ _ (by
      show tuxMachine.Always Fits _ _
      decide)).2.1, by decide⟩

end CompE.Tux
