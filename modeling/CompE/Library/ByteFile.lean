import Mathlib.Algebra.Ring.Nat
import Mathlib.Logic.Function.Basic

/-!
# Files of fixed-size records

A file that is read from front to back is the list of the bytes still to come.
`fread` takes the next bytes or fails.  A record is a number of bytes; `chunk`
is the record at an index.  `readRow` reads records and stores them at
consecutive places, and `readRow_eq` says when it succeeds and what is where.

Numbers are little endian (`le`, `ofLe`).
-/

namespace CompE.Library.ByteFile

abbrev Byte := UInt8

/-! ## Little-endian numbers -/

/-- The number that bytes stand for. -/
def ofLe : List Byte → Nat
  | [] => 0
  | b :: bytes => b.toNat + 256 * ofLe bytes

/-- The bytes of a number. -/
def le : Nat → Nat → List Byte
  | 0, _ => []
  | size + 1, v => UInt8.ofNat v :: le size (v / 256)

@[simp] theorem length_le (size v : Nat) : (le size v).length = size := by
  induction size generalizing v with
  | zero => rfl
  | succ size ih => rw [le, List.length_cons, ih]

theorem ofLe_le {size v : Nat} (h : v < 256 ^ size) : ofLe (le size v) = v := by
  induction size generalizing v with
  | zero =>
      rw [Nat.pow_zero] at h
      show 0 = v
      omega
  | succ size ih =>
      have hHigh : v / 256 < 256 ^ size := by
        rw [Nat.pow_succ] at h
        exact Nat.div_lt_of_lt_mul (by omega)
      have hLow : (UInt8.ofNat v).toNat = v % 256 := rfl
      rw [le, ofLe, ih hHigh, hLow]
      omega

/-! ## Reading -/

/-- The next bytes of a file, and what is behind them. -/
def fread (size : Nat) (file : List Byte) : Option (List Byte × List Byte) :=
  if size ≤ file.length then some (file.take size, file.drop size) else none

/-- The record at an index. -/
def chunk (size : Nat) (file : List Byte) (i : Nat) : List Byte :=
  (file.drop (size * i)).take size

theorem chunk_drop (size : Nat) (file : List Byte) (n i : Nat) :
    chunk size (file.drop (size * n)) i = chunk size file (n + i) := by
  rw [chunk, chunk, List.drop_drop, Nat.mul_add]

/-- A record inside a longer one. -/
theorem chunk_chunk {size n i : Nat} (file : List Byte) (k : Nat) (h : i < n) :
    chunk size (chunk (size * n) file k) i = chunk size file (n * k + i) := by
  have hFits : size * i + size ≤ size * n := by
    rw [← Nat.mul_succ]
    exact Nat.mul_le_mul_left size h
  rw [chunk, chunk, chunk, List.drop_take, List.take_take, List.drop_drop,
    Nat.mul_add, Nat.mul_assoc, Nat.min_eq_left (by omega)]

section Records

variable {α : Type} {size : Nat} {f : α → List Byte}

theorem length_records {as : List α} (h : ∀ a ∈ as, (f a).length = size) :
    (as.flatMap f).length = size * as.length := by
  induction as with
  | nil => rfl
  | cons a as ih =>
      have hHere := h a List.mem_cons_self
      have hRest := ih fun a ha => h a (List.mem_cons_of_mem _ ha)
      rw [List.flatMap_cons, List.length_append, hHere, hRest, List.length_cons,
        Nat.mul_succ, Nat.add_comm]

/-- The records of a file that was written record by record. -/
theorem chunk_records {as : List α} (h : ∀ a ∈ as, (f a).length = size)
    (rest : List Byte) {i : Nat} (hi : i < as.length) :
    chunk size (as.flatMap f ++ rest) i = f as[i] := by
  induction as generalizing i with
  | nil => exact absurd hi (Nat.not_lt_zero i)
  | cons a as ih =>
      have hHere := h a List.mem_cons_self
      rw [List.flatMap_cons, List.append_assoc]
      cases i with
      | zero =>
          rw [chunk, Nat.mul_zero, List.drop_zero, List.take_left' hHere]
          rfl
      | succ i =>
          have hLt : i < as.length := Nat.lt_of_succ_lt_succ hi
          have hRest := ih (fun a ha => h a (List.mem_cons_of_mem _ ha)) hLt
          show _ = f as[i]
          rw [Nat.add_comm, ← chunk_drop, Nat.mul_one, List.drop_left' hHere,
            hRest]

end Records

/-! ## Reading into places -/

section Rows

variable {β : Type} (size : Nat) (decode : List Byte → β)

/-- Read `n` records and store them from a place on. -/
def readRow (base n : Nat) (s : List Byte × (Nat → β)) :
    Option (List Byte × (Nat → β)) :=
  (List.range n).foldlM (fun s x =>
    (fread size s.1).map fun r =>
      (r.2, Function.update s.2 (base + x) (decode r.1))) s

theorem readRow_succ (base n : Nat) (s : List Byte × (Nat → β)) :
    readRow size decode base (n + 1) s =
      (readRow size decode base n s).bind fun s =>
        (fread size s.1).map fun r =>
          (r.2, Function.update s.2 (base + n) (decode r.1)) := by
  rw [readRow, List.range_succ, List.foldlM_append]
  show (_ >>= fun s => [n].foldlM _ s) = _
  simp only [List.foldlM_cons, List.foldlM_nil, bind_pure]
  rfl

/-- A row is read if and only if the file has its records, which are then at
their places; nothing else is written. -/
theorem readRow_eq (base n : Nat) (file : List Byte) (img : Nat → β) :
    readRow size decode base n (file, img) =
      if size * n ≤ file.length then
        some (file.drop (size * n), fun k =>
          if base ≤ k ∧ k < base + n then decode (chunk size file (k - base))
          else img k)
      else none := by
  induction n with
  | zero =>
      rw [Nat.mul_zero, if_pos (Nat.zero_le _)]
      show some (file, img) = _
      refine congrArg some (Prod.ext rfl (funext fun k => ?_))
      show img k = if base ≤ k ∧ k < base + 0 then _ else img k
      rw [if_neg (by omega)]
  | succ n ih =>
      have hMul : size * (n + 1) = size * n + size := Nat.mul_succ size n
      rw [readRow_succ, ih]
      by_cases hRow : size * n ≤ file.length
      · rw [if_pos hRow, Option.bind_some, fread, List.length_drop]
        by_cases hLast : size * (n + 1) ≤ file.length
        · rw [if_pos (by omega), if_pos hLast, Option.map_some]
          refine congrArg some (Prod.ext ?_ (funext fun k => ?_))
          · show (file.drop (size * n)).drop size = _
            rw [List.drop_drop, hMul]
          · dsimp only
            by_cases hHere : k = base + n
            · subst hHere
              rw [Function.update_self, if_pos (by omega), Nat.add_sub_cancel_left]
              rfl
            · have hRange : (base ≤ k ∧ k < base + (n + 1)) ↔
                  base ≤ k ∧ k < base + n := by
                omega
              rw [Function.update_of_ne hHere]
              simp only [hRange]
        · rw [if_neg (by omega), if_neg hLast, Option.map_none]
      · rw [if_neg hRow, if_neg (by omega), Option.bind_none]

end Rows

end CompE.Library.ByteFile
