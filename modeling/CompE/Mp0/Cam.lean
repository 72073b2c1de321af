import CompE.Library.LruMap
import Mathlib.Algebra.Ring.Nat
import Mathlib.Data.Fintype.EquivFin

/-!
# The content-addressable memory

Eight entries with a key, a value, a valid bit and a rank, which is zero for
the entry used last.  `cam_controller` finds the entry of a key, or the one to
overwrite, and says which ranks go up by one; `cam_datapath` has the registers.

Every operation that uses an entry comes down to one thing: its rank becomes
zero and the ranks below its old one go up (`promote`).  The entries in the
order of their ranks are then the most-recent-first list of an LRU map
(`Holds`).
-/

namespace CompE.Mp0

open CompE.Library CompE.Library.LruMap

/-- `camsize_p`. -/
abbrev camsizeP : Nat := 8

abbrev CamKey := BitVec 16

abbrev CamVal := BitVec 16

/-- `idx_t`, a word of three bits. -/
abbrev Idx := Fin camsizeP

scoped instance camsizeP_neZero : NeZero camsizeP := ⟨by decide⟩

/-- `camvec_t`, one bit an entry. -/
abbrev CamVec := Fin camsizeP → Bool

/-- `lru_p`. -/
def lruP : Idx := 7

/-- `mru_p`. -/
def mruP : Idx := 0

/-- The registers of `cam_datapath`. -/
structure Cam where
  keysR : Idx → CamKey
  valsR : Idx → CamVal
  lrusR : Idx → Idx
  validsR : CamVec

/-- The inputs of `cam` outside reset. -/
structure CamPorts where
  rwN : Bool
  validI : Bool
  keyI : CamKey
  valI : CamVal

namespace Cam

/-! ## `cam_controller` -/

/-- The vector with one bit set. -/
def oneHot (idx : Idx) : CamVec := fun i => i == idx

/-- `one_hot0_encoder`: `idx_o` and `valid_o`. -/
def oneHot0Encoder (vec : CamVec) : Idx × Bool :=
  let idxO : Idx :=
    if vec = oneHot 0 then 0
    else if vec = oneHot 1 then 1
    else if vec = oneHot 2 then 2
    else if vec = oneHot 3 then 3
    else if vec = oneHot 4 then 4
    else if vec = oneHot 5 then 5
    else if vec = oneHot 6 then 6
    else if vec = oneHot 7 then 7
    else 0
  (idxO, decide (∃ i, vec i = true))

/-- `priority_encoder`, the first bit that is zero: `idx_o` and `valid_o`. -/
def priorityEncoder (vec : CamVec) : Idx × Bool :=
  if !vec 0 then (0, true)
  else if !vec 1 then (1, true)
  else if !vec 2 then (2, true)
  else if !vec 3 then (3, true)
  else if !vec 4 then (4, true)
  else if !vec 5 then (5, true)
  else if !vec 6 then (6, true)
  else if !vec 7 then (7, true)
  else (0, false)

/-- What the controller drives. -/
structure Controls where
  writeCD : CamVec
  readCD : CamVec
  incrementLruCD : CamVec

section Signals

variable (c : Cam) (p : CamPorts)

def readI : Bool := p.validI && p.rwN

def writeI : Bool := p.validI && !p.rwN

/-- `hit_detector`. -/
def hitsDC : CamVec := fun i => c.validsR i && c.keysR i == p.keyI

def hitIdxW : Idx := (oneHot0Encoder (c.hitsDC p)).1

def hitValidW : Bool := (oneHot0Encoder (c.hitsDC p)).2

def invalidIdxW : Idx := (priorityEncoder c.validsR).1

def invalidEntryW : Bool := (priorityEncoder c.validsR).2

/-- `lru_detector`. -/
def lruW : CamVec := fun i => c.lrusR i == lruP

/-- The entries used after the one that is hit. -/
def usedAfterHit : CamVec := fun i =>
  c.validsR i && decide (c.lrusR i < c.lrusR (c.hitIdxW p))

def controls : Controls :=
  match readI p, writeI p, c.hitValidW p with
  | false, true, false =>
      if c.invalidEntryW then
        ⟨oneHot c.invalidIdxW, fun _ => false, c.validsR⟩
      else ⟨c.lruW, fun _ => false, fun i => !c.lruW i⟩
  | false, true, true => ⟨c.hitsDC p, fun _ => false, c.usedAfterHit p⟩
  | true, false, true => ⟨fun _ => false, c.hitsDC p, c.usedAfterHit p⟩
  | _, _, _ => ⟨fun _ => false, fun _ => false, fun _ => false⟩

def validO : Bool := c.hitValidW p && readI p

def valO : CamVal := c.valsR (c.hitIdxW p)

/-! ## `cam_datapath` -/

/-- One entry across the clock edge: key, value, rank and valid bit. -/
def entryNext (i : Idx) : CamKey × CamVal × Idx × Bool :=
  match (c.controls p).writeCD i, (c.controls p).readCD i,
      (c.controls p).incrementLruCD i with
  | false, false, true => (c.keysR i, c.valsR i, c.lrusR i + 1, c.validsR i)
  | false, true, false => (c.keysR i, c.valsR i, mruP, c.validsR i)
  | true, false, false => (p.keyI, p.valI, mruP, true)
  | _, _, _ => (c.keysR i, c.valsR i, c.lrusR i, c.validsR i)

/-- One clock edge outside reset. -/
def clock : Cam where
  keysR i := (c.entryNext p i).1
  valsR i := (c.entryNext p i).2.1
  lrusR i := (c.entryNext p i).2.2.1
  validsR i := (c.entryNext p i).2.2.2

/-- The keys of valid entries that the write replaces by another key. -/
def evicted : List CamKey :=
  let written := (List.finRange camsizeP).filter (c.controls p).writeCD
  (written.filter fun i => c.validsR i && c.keysR i != p.keyI).map c.keysR

/-- The operation of a cycle and what is seen of it. -/
def events : List (Event CamKey CamVal) :=
  if readI p then
    [.read p.keyI (if c.validO p then some (c.valO p) else none)]
  else if writeI p then [.write p.keyI p.valI (c.evicted p)]
  else []

end Signals

/-- After reset; keys and values may be anything. -/
structure IsReset (c : Cam) : Prop where
  validsR : ∀ i, c.validsR i = false
  lrusR : ∀ i, c.lrusR i = i

/-- The memory over its clock cycles, with any inputs. -/
def camMachine : Machine Cam CamPorts (Event CamKey CamVal) where
  step := clock
  emit := events
  legal := fun _ _ => True

/-! ## Encoders -/

private theorem oneHot0Encoder_oneHot (idx : Idx) :
    oneHot0Encoder (oneHot idx) = (idx, true) := by
  revert idx
  decide

private theorem oneHot0Encoder_zero {vec : CamVec} (h : ∀ i, vec i = false) :
    (oneHot0Encoder vec).2 = false := by
  simp [oneHot0Encoder, h]

/-- A vector of `n` leading ones. -/
theorem priorityEncoder_prefix {vec : CamVec} {n : Nat}
    (h : ∀ i, vec i = decide (i.val < n)) :
    (priorityEncoder vec).2 = decide (n < camsizeP) ∧
      (n < camsizeP → (priorityEncoder vec).1.val = n) := by
  by_cases hLarge : camsizeP ≤ n
  · have hAll : vec = fun _ => true := by
      funext i
      rw [h i, decide_eq_true_eq]
      exact Nat.lt_of_lt_of_le i.isLt hLarge
    rw [hAll]
    exact ⟨by simp [priorityEncoder, hLarge], fun hLt => by omega⟩
  · have hVec : vec = fun i : Idx => decide (i.val < n) := funext h
    have hLt : n < 8 := Nat.lt_of_not_le hLarge
    rw [hVec]
    clear hVec h hLarge
    revert n
    decide

/-! ## The use of an entry -/

/-- The entry gets the key and the value and the rank zero; the ranks below its
old one go up. -/
def promote (c : Cam) (idx : Idx) (k : CamKey) (v : CamVal) : Cam where
  keysR := Function.update c.keysR idx k
  valsR := Function.update c.valsR idx v
  lrusR i :=
    if i = idx then mruP
    else if c.lrusR i < c.lrusR idx then c.lrusR i + 1
    else c.lrusR i
  validsR := Function.update c.validsR idx true

/-- The entries by their ranks are the list, the invalid ones behind it, and
the valid ones are those with the first indices. -/
structure Holds (c : Cam) (m : List (CamKey × CamVal)) : Prop where
  injective : Function.Injective c.lrusR
  valid_iff : ∀ i, c.validsR i = decide (i.val < m.length)
  valid_rank : ∀ i, c.validsR i = decide ((c.lrusR i).val < m.length)
  fresh : ∀ i, c.validsR i = false → c.lrusR i = i
  entry : ∀ i, c.validsR i = true →
    m[(c.lrusR i).val]? = some (c.keysR i, c.valsR i)

private theorem rank_succ {a b : Idx} (h : a < b) : (a + 1).val = a.val + 1 := by
  revert a b
  decide

section Promote

variable {c : Cam} {m : List (CamKey × CamVal)}

theorem IsReset.holds (h : c.IsReset) : Holds c [] where
  injective := by
    intro i j hEq
    rwa [h.lrusR, h.lrusR] at hEq
  valid_iff := by simp [h.validsR]
  valid_rank := by simp [h.validsR]
  fresh := fun i _ => h.lrusR i
  entry := by simp [h.validsR]

/-- The ranks of the valid entries come before those of the others. -/
theorem Holds.rank_lt_iff (h : Holds c m) (i : Idx) :
    c.validsR i = true ↔ (c.lrusR i).val < m.length := by
  rw [h.valid_rank, decide_eq_true_eq]

/-- The entry that is used is one of the list or the first behind it. -/
theorem Holds.promote_cases (h : Holds c m) {idx : Idx} (k : CamKey)
    (v : CamVal) (hPlace : c.validsR idx = true ∨ idx.val = m.length) :
    idx.val < m.length ∧ (c.lrusR idx).val < m.length ∧
        ((k, v) :: m.eraseIdx (c.lrusR idx).val).length = m.length ∨
      idx.val = m.length ∧ (c.lrusR idx).val = m.length ∧
        ((k, v) :: m.eraseIdx (c.lrusR idx).val).length = m.length + 1 := by
  rw [List.length_cons]
  by_cases hIdx : idx.val < m.length
  · have hRank : (c.lrusR idx).val < m.length := by
      rw [← h.rank_lt_iff, h.valid_iff, decide_eq_true_eq]
      exact hIdx
    rw [List.length_eraseIdx_of_lt hRank]
    exact Or.inl ⟨hIdx, hRank, by omega⟩
  · have hInvalid : c.validsR idx = false := by
      rw [h.valid_iff, decide_eq_false_iff_not]
      exact hIdx
    have hNew : idx.val = m.length := by simpa [hInvalid] using hPlace
    rw [h.fresh idx hInvalid, hNew, List.eraseIdx_of_length_le (Nat.le_refl _)]
    exact Or.inr ⟨rfl, rfl, rfl⟩

private theorem promote_validsR_self (c : Cam) (idx : Idx) (k : CamKey) (v : CamVal) :
    (c.promote idx k v).validsR idx = true := by
  simp [promote]

private theorem promote_validsR_of_ne (c : Cam) {i idx : Idx} (k : CamKey) (v : CamVal)
    (hNe : i ≠ idx) : (c.promote idx k v).validsR i = c.validsR i := by
  simp [promote, hNe]

private theorem promote_lrusR_self (c : Cam) (idx : Idx) (k : CamKey) (v : CamVal) :
    ((c.promote idx k v).lrusR idx).val = 0 := by
  simp [promote, mruP]

private theorem promote_lrusR_of_ne (c : Cam) {i idx : Idx} (k : CamKey) (v : CamVal)
    (hNe : i ≠ idx) :
    ((c.promote idx k v).lrusR i).val =
      if (c.lrusR i).val < (c.lrusR idx).val then (c.lrusR i).val + 1
      else (c.lrusR i).val := by
  simp only [promote, if_neg hNe, Fin.lt_def]
  by_cases hLt : (c.lrusR i).val < (c.lrusR idx).val
  · rw [if_pos hLt, if_pos hLt, rank_succ hLt]
  · rw [if_neg hLt, if_neg hLt]

theorem Holds.rank_ne (h : Holds c m) {i j : Idx} (hNe : i ≠ j) :
    (c.lrusR i).val ≠ (c.lrusR j).val := by
  intro hEq
  exact hNe (h.injective (Fin.ext hEq))

theorem Holds.promote_injective (h : Holds c m) (idx : Idx) (k : CamKey)
    (v : CamVal) : Function.Injective (c.promote idx k v).lrusR := by
  intro i j hEq
  have hVal : ((c.promote idx k v).lrusR i).val =
      ((c.promote idx k v).lrusR j).val := by rw [hEq]
  by_cases hi : i = idx
  · by_cases hj : j = idx
    · rw [hi, hj]
    · have hRank := h.rank_ne hj
      rw [hi, promote_lrusR_self, promote_lrusR_of_ne c k v hj] at hVal
      split at hVal <;> omega
  · by_cases hj : j = idx
    · have hRank := h.rank_ne hi
      rw [hj, promote_lrusR_self, promote_lrusR_of_ne c k v hi] at hVal
      split at hVal <;> omega
    · have hRank := h.rank_ne hi
      have hRank' := h.rank_ne hj
      rw [promote_lrusR_of_ne c k v hi, promote_lrusR_of_ne c k v hj] at hVal
      apply h.injective
      apply Fin.ext
      split at hVal <;> split at hVal <;> omega

/-- The list behind its first entry, at a new rank. -/
theorem getElem?_promote (m : List (CamKey × CamVal)) (a : CamKey × CamVal)
    {r s : Nat} (hNe : s ≠ r) :
    (a :: m.eraseIdx r)[if s < r then s + 1 else s]? = m[s]? := by
  by_cases hLt : s < r
  · rw [if_pos hLt, List.getElem?_cons_succ, List.getElem?_eraseIdx_of_lt hLt]
  · rw [if_neg hLt]
    obtain ⟨s', rfl⟩ : ∃ s', s = s' + 1 := ⟨s - 1, by omega⟩
    rw [List.getElem?_cons_succ, List.getElem?_eraseIdx_of_ge (by omega)]

/-- **The use of an entry** moves it to the front of the list. -/
theorem Holds.promote (h : Holds c m) {idx : Idx} (k : CamKey) (v : CamVal)
    (hPlace : c.validsR idx = true ∨ idx.val = m.length) :
    Holds (c.promote idx k v) ((k, v) :: m.eraseIdx (c.lrusR idx).val) := by
  have hCases := h.promote_cases k v hPlace
  have hLater : ∀ i, i ≠ idx → c.validsR i = false →
      ¬ (c.lrusR i).val < (c.lrusR idx).val := by
    intro i hi hInvalid
    have hRank := h.valid_rank i
    rw [hInvalid] at hRank
    have hNot := of_decide_eq_false hRank.symm
    omega
  refine ⟨h.promote_injective idx k v, ?_, ?_, ?_, ?_⟩
  · intro i
    by_cases hi : i = idx
    · rw [hi, promote_validsR_self, eq_comm, decide_eq_true_eq]
      omega
    · have hVal : i.val ≠ idx.val := fun hEq => hi (Fin.ext hEq)
      rw [promote_validsR_of_ne c k v hi, h.valid_iff, decide_eq_decide]
      omega
  · intro i
    by_cases hi : i = idx
    · rw [hi, promote_lrusR_self, promote_validsR_self, eq_comm,
        decide_eq_true_eq]
      omega
    · have hRank := h.rank_ne hi
      rw [promote_lrusR_of_ne c k v hi, promote_validsR_of_ne c k v hi,
        h.valid_rank, decide_eq_decide]
      split <;> omega
  · intro i hInvalid
    by_cases hi : i = idx
    · rw [hi, promote_validsR_self] at hInvalid
      exact absurd hInvalid (by decide)
    · rw [promote_validsR_of_ne c k v hi] at hInvalid
      apply Fin.ext
      rw [promote_lrusR_of_ne c k v hi, if_neg (hLater i hi hInvalid),
        h.fresh i hInvalid]
  · intro i hValid
    by_cases hi : i = idx
    · rw [hi, promote_lrusR_self]
      simp [Cam.promote]
    · rw [promote_validsR_of_ne c k v hi] at hValid
      rw [promote_lrusR_of_ne c k v hi, getElem?_promote m (k, v) (h.rank_ne hi),
        h.entry i hValid]
      simp [Cam.promote, Function.update_of_ne hi]

end Promote

/-! ## Operations as uses of entries -/

section Operations

variable {c : Cam} {m : List (CamKey × CamVal)}
  {hist : List (Event CamKey CamVal)} {p : CamPorts} {idx : Idx}

/-- The entries that are used after `idx`. -/
def usedAfter (c : Cam) (idx : Idx) : CamVec :=
  fun i => decide (c.lrusR i < c.lrusR idx)

private theorem usedAfter_eq (c : Cam) (idx i : Idx) :
    c.usedAfter idx i = decide ((c.lrusR i).val < (c.lrusR idx).val) :=
  rfl

private theorem usedAfter_self (c : Cam) (idx : Idx) : c.usedAfter idx idx = false := by
  simp [usedAfter]

private theorem clock_of_write
    (h : c.controls p = ⟨oneHot idx, fun _ => false, c.usedAfter idx⟩) :
    c.clock p = c.promote idx p.keyI p.valI := by
  have hEntry : ∀ i, c.entryNext p i =
      ((c.promote idx p.keyI p.valI).keysR i,
        (c.promote idx p.keyI p.valI).valsR i,
        (c.promote idx p.keyI p.valI).lrusR i,
        (c.promote idx p.keyI p.valI).validsR i) := by
    intro i
    by_cases hi : i = idx
    · simp [entryNext, h, hi, oneHot, usedAfter_self, promote]
    · have hBit : (i == idx) = false := beq_eq_false_iff_ne.2 hi
      by_cases hLt : c.lrusR i < c.lrusR idx <;>
        simp [entryNext, h, hi, oneHot, hBit, usedAfter, hLt, promote]
  simp only [clock, hEntry]

private theorem clock_of_read (hValid : c.validsR idx = true)
    (h : c.controls p = ⟨fun _ => false, oneHot idx, c.usedAfter idx⟩) :
    c.clock p = c.promote idx (c.keysR idx) (c.valsR idx) := by
  have hEntry : ∀ i, c.entryNext p i =
      ((c.promote idx (c.keysR idx) (c.valsR idx)).keysR i,
        (c.promote idx (c.keysR idx) (c.valsR idx)).valsR i,
        (c.promote idx (c.keysR idx) (c.valsR idx)).lrusR i,
        (c.promote idx (c.keysR idx) (c.valsR idx)).validsR i) := by
    intro i
    by_cases hi : i = idx
    · simp [entryNext, h, hi, oneHot, usedAfter_self, promote, hValid]
    · have hBit : (i == idx) = false := beq_eq_false_iff_ne.2 hi
      by_cases hLt : c.lrusR i < c.lrusR idx <;>
        simp [entryNext, h, hi, oneHot, hBit, usedAfter, hLt, promote]
  simp only [clock, hEntry]

private theorem clock_of_idle
    (h : c.controls p = ⟨fun _ => false, fun _ => false, fun _ => false⟩) :
    c.clock p = c := by
  simp [clock, entryNext, h]

private theorem filter_oneHot (idx : Idx) :
    (List.finRange camsizeP).filter (oneHot idx) = [idx] := by
  revert idx
  decide

private theorem evicted_of_write {inc : CamVec}
    (h : c.controls p = ⟨oneHot idx, fun _ => false, inc⟩) :
    c.evicted p =
      if c.validsR idx && c.keysR idx != p.keyI then [c.keysR idx] else [] := by
  simp only [evicted, h, filter_oneHot, List.filter_cons, List.filter_nil]
  split <;> rfl

/-- Two valid entries have different keys. -/
theorem Holds.key_injective (h : Holds c m) (hRep : Represents camsizeP m hist)
    {i j : Idx} (hi : c.validsR i = true) (hj : c.validsR j = true)
    (hEq : c.keysR i = c.keysR j) : i = j := by
  by_contra hNe
  have hKeys := List.pairwise_iff_getElem.1 hRep.key_ne
  obtain ⟨hiLt, hiAt⟩ := List.getElem?_eq_some_iff.1 (h.entry i hi)
  obtain ⟨hjLt, hjAt⟩ := List.getElem?_eq_some_iff.1 (h.entry j hj)
  rcases Nat.lt_or_gt_of_ne (h.rank_ne hNe) with hLt | hLt
  · have hDiff := hKeys _ _ hiLt hjLt hLt
    rw [hiAt, hjAt] at hDiff
    exact hDiff hEq
  · have hDiff := hKeys _ _ hjLt hiLt hLt
    rw [hiAt, hjAt] at hDiff
    exact hDiff hEq.symm

/-- Some valid entry has the key, or the history has nothing under it. -/
theorem Holds.hit_or_miss (h : Holds c m) (hRep : Represents camsizeP m hist)
    (k : CamKey) :
    (∃ i, c.validsR i = true ∧ c.keysR i = k) ∨
      stored hist k = none ∧ ∀ i, c.validsR i = true → c.keysR i ≠ k := by
  by_cases hHit : ∃ i, c.validsR i = true ∧ c.keysR i = k
  · exact Or.inl hHit
  · have hMiss : ∀ i, c.validsR i = true → c.keysR i ≠ k :=
      fun i hi hEq => hHit ⟨i, hi, hEq⟩
    refine Or.inr ⟨?_, hMiss⟩
    cases hStored : stored hist k with
    | none => rfl
    | some v =>
        obtain ⟨r, hr, hAt⟩ :=
          List.mem_iff_getElem.1 ((hRep.mem_iff k v).2 hStored)
        have hSmall : r < camsizeP := Nat.lt_of_lt_of_le hr hRep.room
        obtain ⟨i, hi⟩ :=
          (Finite.injective_iff_surjective.1 h.injective) ⟨r, hSmall⟩
        have hRank : (c.lrusR i).val = r := by rw [hi]
        have hValid : c.validsR i = true := by
          rw [h.rank_lt_iff, hRank]
          exact hr
        have hEntry := h.entry i hValid
        rw [hRank, List.getElem?_eq_getElem hr, hAt, Option.some.injEq,
          Prod.mk.injEq] at hEntry
        exact absurd hEntry.1.symm (hMiss i hValid)

/-- A hit finds its entry. -/
theorem Holds.hitsDC_eq (h : Holds c m) (hRep : Represents camsizeP m hist)
    (hValid : c.validsR idx = true) (hKey : c.keysR idx = p.keyI) :
    c.hitsDC p = oneHot idx := by
  funext i
  by_cases hi : i = idx
  · simp [hitsDC, oneHot, hi, hValid, hKey]
  · have hOther : (c.validsR i && c.keysR i == p.keyI) = false := by
      rw [Bool.and_eq_false_imp]
      intro hiValid
      rw [beq_eq_false_iff_ne]
      intro hEq
      exact hi (h.key_injective hRep hiValid hValid (hEq.trans hKey.symm))
    simp [hitsDC, oneHot, hi, hOther]

private theorem hitValidW_of_miss
    (hMiss : ∀ i, c.validsR i = true → c.keysR i ≠ p.keyI) :
    c.hitValidW p = false := by
  apply oneHot0Encoder_zero
  intro i
  rw [hitsDC, Bool.and_eq_false_imp]
  intro hValid
  exact beq_eq_false_iff_ne.2 (hMiss i hValid)

theorem Holds.usedAfterHit_eq (h : Holds c m) (hValid : c.validsR idx = true)
    (hIdx : c.hitIdxW p = idx) : c.usedAfterHit p = c.usedAfter idx := by
  funext i
  have hRank := (h.rank_lt_iff idx).1 hValid
  rw [usedAfterHit, usedAfter, hIdx, h.valid_rank, ← Bool.decide_and,
    decide_eq_decide, Fin.lt_def]
  omega

theorem Holds.hit (h : Holds c m) (hRep : Represents camsizeP m hist)
    (hValid : c.validsR idx = true) (hKey : c.keysR idx = p.keyI) :
    c.hitIdxW p = idx ∧ c.hitValidW p = true := by
  rw [hitIdxW, hitValidW, h.hitsDC_eq hRep hValid hKey, oneHot0Encoder_oneHot]
  exact ⟨rfl, rfl⟩

/-- The outcome of a cycle: its events are those of an LRU map, whose list the
entries still are. -/
def Follows (c : Cam) (hist : List (Event CamKey CamVal)) (p : CamPorts) :
    Prop :=
  (spec CamKey CamVal camsizeP).Accepts hist (c.events p) ∧
    ∃ m', Holds (c.clock p) m' ∧
      Represents camsizeP m'
        ((spec CamKey CamVal camsizeP).after hist (c.events p))

/-- A cycle with one event. -/
theorem follows_of_event {e : Event CamKey CamVal}
    {m' : List (CamKey × CamVal)} (hEvents : c.events p = [e])
    (hGood : (spec CamKey CamVal camsizeP).good hist e ∧
      Represents camsizeP m' (e :: hist))
    (hHolds : Holds (c.clock p) m') : Follows c hist p := by
  rw [Follows, hEvents]
  exact ⟨⟨hGood.1, trivial⟩, m', hHolds, hGood.2⟩

theorem Holds.read_hit (h : Holds c m) (hRep : Represents camsizeP m hist)
    (hOp : p.validI = true ∧ p.rwN = true) (hValid : c.validsR idx = true)
    (hKey : c.keysR idx = p.keyI) : Follows c hist p := by
  obtain ⟨hIdx, hHit⟩ := h.hit hRep hValid hKey
  have hControls :
      c.controls p = ⟨fun _ => false, oneHot idx, c.usedAfter idx⟩ := by
    simp [controls, readI, writeI, hOp.1, hOp.2, hHit,
      h.hitsDC_eq hRep hValid hKey, h.usedAfterHit_eq hValid hIdx]
  have hEvents : c.events p = [.read p.keyI (some (c.valsR idx))] := by
    simp [events, readI, validO, valO, hOp.1, hOp.2, hHit, hIdx]
  have hAt := h.entry idx hValid
  rw [hKey] at hAt
  apply follows_of_event hEvents (hRep.read_hit hAt)
  rw [clock_of_read hValid hControls, hKey]
  exact h.promote _ _ (Or.inl hValid)

theorem Holds.read_miss (h : Holds c m) (hRep : Represents camsizeP m hist)
    (hOp : p.validI = true ∧ p.rwN = true)
    (hNone : stored hist p.keyI = none)
    (hMiss : ∀ i, c.validsR i = true → c.keysR i ≠ p.keyI) :
    Follows c hist p := by
  have hHit := hitValidW_of_miss hMiss
  have hControls : c.controls p =
      ⟨fun _ => false, fun _ => false, fun _ => false⟩ := by
    simp [controls, readI, writeI, hOp.1, hOp.2, hHit]
  have hEvents : c.events p = [.read p.keyI none] := by
    simp [events, readI, validO, hOp.1, hOp.2, hHit]
  apply follows_of_event hEvents (hRep.read_miss hNone)
  rw [clock_of_idle hControls]
  exact h

theorem Holds.write_hit (h : Holds c m) (hRep : Represents camsizeP m hist)
    (hOp : p.validI = true ∧ p.rwN = false) (hValid : c.validsR idx = true)
    (hKey : c.keysR idx = p.keyI) :
    Follows c hist p ∧ c.clock p = c.promote idx p.keyI p.valI := by
  obtain ⟨hIdx, hHit⟩ := h.hit hRep hValid hKey
  have hControls :
      c.controls p = ⟨oneHot idx, fun _ => false, c.usedAfter idx⟩ := by
    simp [controls, readI, writeI, hOp.1, hOp.2, hHit,
      h.hitsDC_eq hRep hValid hKey, h.usedAfterHit_eq hValid hIdx]
  have hEvents : c.events p = [.write p.keyI p.valI []] := by
    simp [events, readI, writeI, hOp.1, hOp.2, evicted_of_write hControls, hKey]
  have hAt := h.entry idx hValid
  rw [hKey] at hAt
  refine ⟨?_, clock_of_write hControls⟩
  apply follows_of_event hEvents (hRep.write_hit hAt p.valI)
  rw [clock_of_write hControls]
  exact h.promote _ _ (Or.inl hValid)

theorem Holds.write_fresh (h : Holds c m) (hRep : Represents camsizeP m hist)
    (hOp : p.validI = true ∧ p.rwN = false)
    (hNone : stored hist p.keyI = none)
    (hMiss : ∀ i, c.validsR i = true → c.keysR i ≠ p.keyI)
    (hRoom : m.length < camsizeP) : Follows c hist p := by
  have hHit := hitValidW_of_miss hMiss
  obtain ⟨hFound, hFirst⟩ := priorityEncoder_prefix h.valid_iff
  have hIdx : c.invalidIdxW.val = m.length := hFirst hRoom
  have hInvalid : c.validsR c.invalidIdxW = false := by
    rw [h.valid_iff, hIdx, decide_eq_false_iff_not]
    exact Nat.lt_irrefl _
  have hRank : (c.lrusR c.invalidIdxW).val = m.length := by
    rw [h.fresh _ hInvalid, hIdx]
  have hControls : c.controls p =
      ⟨oneHot c.invalidIdxW, fun _ => false, c.usedAfter c.invalidIdxW⟩ := by
    have hUsed : c.usedAfter c.invalidIdxW = c.validsR := by
      funext i
      rw [usedAfter_eq, hRank, h.valid_rank]
    have hEntry : c.invalidEntryW = true := by
      rw [invalidEntryW, hFound]
      exact decide_eq_true hRoom
    simp [controls, readI, writeI, hOp.1, hOp.2, hHit, hEntry, hUsed]
  have hEvents : c.events p = [.write p.keyI p.valI []] := by
    simp [events, readI, writeI, hOp.1, hOp.2, evicted_of_write hControls,
      hInvalid]
  have hHolds := h.promote p.keyI p.valI (Or.inr hIdx)
  rw [hRank, List.eraseIdx_of_length_le (Nat.le_refl _)] at hHolds
  apply follows_of_event hEvents (hRep.write_fresh hNone hRoom p.valI)
  rw [clock_of_write hControls]
  exact hHolds

theorem Holds.write_evict (h : Holds c m) (hRep : Represents camsizeP m hist)
    (hOp : p.validI = true ∧ p.rwN = false)
    (hNone : stored hist p.keyI = none)
    (hMiss : ∀ i, c.validsR i = true → c.keysR i ≠ p.keyI)
    (hFull : m.length = camsizeP) : Follows c hist p := by
  have hHit := hitValidW_of_miss hMiss
  obtain ⟨hFound, _⟩ := priorityEncoder_prefix h.valid_iff
  obtain ⟨idx, hIdx⟩ := (Finite.injective_iff_surjective.1 h.injective) lruP
  have hRank : (c.lrusR idx).val = 7 := by rw [hIdx]; rfl
  have hValid : c.validsR idx = true := by
    rw [h.rank_lt_iff, hRank, hFull]
    decide
  have hLru : c.lruW = oneHot idx := by
    funext i
    by_cases hi : i = idx
    · simp [lruW, oneHot, hi, hIdx]
    · have hNe : c.lrusR i ≠ lruP := by
        intro hEq
        exact hi (h.injective (hEq.trans hIdx.symm))
      simp [lruW, oneHot, hi, hNe]
  have hUsed : c.usedAfter idx = fun i => !c.lruW i := by
    funext i
    rw [hLru, usedAfter_eq, oneHot, hRank]
    by_cases hi : i = idx
    · simp [hi, hRank]
    · have hNe := h.rank_ne hi
      have hSmall : (c.lrusR i).val < 8 := (c.lrusR i).isLt
      have hLt : (c.lrusR i).val < 7 := by omega
      simp [hi, hLt]
  have hControls : c.controls p =
      ⟨oneHot idx, fun _ => false, c.usedAfter idx⟩ := by
    have hEntry : c.invalidEntryW = false := by
      rw [invalidEntryW, hFound, hFull]
      rfl
    simp [controls, readI, writeI, hOp.1, hOp.2, hHit, hEntry, hUsed, hLru]
  have hEvents : c.events p = [.write p.keyI p.valI [c.keysR idx]] := by
    simp [events, readI, writeI, hOp.1, hOp.2, evicted_of_write hControls,
      hValid, hMiss idx hValid]
  have hHolds := h.promote p.keyI p.valI (Or.inl hValid)
  have hLast : (c.lrusR idx).val + 1 = m.length := by rw [hRank, hFull]
  apply follows_of_event hEvents
    (hRep.write_evict hNone hFull hLast (h.entry idx hValid) p.valI)
  rw [clock_of_write hControls]
  exact hHolds

/-- Every cycle is one of an LRU map. -/
theorem Holds.step (h : Holds c m) (hRep : Represents camsizeP m hist)
    (p : CamPorts) : Follows c hist p := by
  cases hOn : p.validI with
  | false =>
      have hControls : c.controls p =
          ⟨fun _ => false, fun _ => false, fun _ => false⟩ := by
        simp [controls, readI, writeI, hOn]
      have hEvents : c.events p = [] := by simp [events, readI, writeI, hOn]
      rw [Follows, hEvents, clock_of_idle hControls]
      exact ⟨trivial, m, h, hRep⟩
  | true =>
      cases hRw : p.rwN with
      | true =>
          rcases h.hit_or_miss hRep p.keyI with ⟨i, hValid, hKey⟩ | ⟨hNone, hMiss⟩
          · exact h.read_hit hRep ⟨hOn, hRw⟩ hValid hKey
          · exact h.read_miss hRep ⟨hOn, hRw⟩ hNone hMiss
      | false =>
          rcases h.hit_or_miss hRep p.keyI with ⟨i, hValid, hKey⟩ | ⟨hNone, hMiss⟩
          · exact (h.write_hit hRep ⟨hOn, hRw⟩ hValid hKey).1
          · have hRoom := hRep.room
            by_cases hFull : m.length = camsizeP
            · exact h.write_evict hRep ⟨hOn, hRw⟩ hNone hMiss hFull
            · exact h.write_fresh hRep ⟨hOn, hRw⟩ hNone hMiss (by omega)

/-- The registers after a history of operations. -/
structure Stores (c : Cam) (hist : List (Event CamKey CamVal)) : Prop where
  distinct : ∀ i j, c.validsR i = true → c.validsR j = true →
    c.keysR i = c.keysR j → i = j
  permutation : Function.Bijective c.lrusR
  validFirst : ∀ i j, c.validsR i = true → c.lrusR j < c.lrusR i →
    c.validsR j = true
  byRecency : ∀ i j, c.validsR i = true → c.validsR j = true →
    (c.lrusR i < c.lrusR j ↔ age hist (c.keysR i) < age hist (c.keysR j))
  contents : ∀ k v, stored hist k = some v ↔
    ∃ i, c.validsR i = true ∧ c.keysR i = k ∧ c.valsR i = v
  inPlace : ∀ i p, c.validsR i = true → p.validI = true → p.rwN = false →
    p.keyI = c.keysR i →
      (c.clock p).keysR = c.keysR ∧ (c.clock p).validsR = c.validsR ∧
        (c.clock p).valsR = Function.update c.valsR i p.valI

theorem Holds.age_lt (h : Holds c m) (hRep : Represents camsizeP m hist)
    {i j : Idx} (hi : c.validsR i = true) (hj : c.validsR j = true)
    (hLt : c.lrusR i < c.lrusR j) :
    age hist (c.keysR i) < age hist (c.keysR j) := by
  obtain ⟨hiLt, hiAt⟩ := List.getElem?_eq_some_iff.1 (h.entry i hi)
  obtain ⟨hjLt, hjAt⟩ := List.getElem?_eq_some_iff.1 (h.entry j hj)
  have hAge := List.pairwise_iff_getElem.1 hRep.recent _ _ hiLt hjLt hLt
  rw [hiAt, hjAt] at hAge
  exact hAge

theorem Holds.contents (h : Holds c m) (hRep : Represents camsizeP m hist)
    (k : CamKey) (v : CamVal) : stored hist k = some v ↔
      ∃ i, c.validsR i = true ∧ c.keysR i = k ∧ c.valsR i = v := by
  constructor
  · intro hStored
    rcases h.hit_or_miss hRep k with ⟨i, hValid, hKey⟩ | ⟨hNone, _⟩
    · have hEntry :=
        (hRep.mem_iff _ _).1 (List.mem_of_getElem? (h.entry i hValid))
      rw [hKey, hStored, Option.some.injEq] at hEntry
      exact ⟨i, hValid, hKey, hEntry.symm⟩
    · rw [hNone] at hStored
      cases hStored
  · rintro ⟨i, hValid, rfl, rfl⟩
    exact (hRep.mem_iff _ _).1 (List.mem_of_getElem? (h.entry i hValid))

theorem Holds.stores (h : Holds c m) (hRep : Represents camsizeP m hist) :
    Stores c hist where
  distinct := fun _ _ hi hj hEq => h.key_injective hRep hi hj hEq
  permutation := Finite.injective_iff_bijective.1 h.injective
  validFirst := by
    intro i j hi hLt
    rw [h.rank_lt_iff] at hi ⊢
    exact Nat.lt_trans hLt hi
  byRecency := by
    intro i j hi hj
    refine ⟨h.age_lt hRep hi hj, fun hAge => ?_⟩
    by_contra hNot
    rcases Nat.lt_or_eq_of_le (Nat.le_of_not_lt hNot) with hGt | hEq
    · have hBack := h.age_lt hRep hj hi hGt
      omega
    · rw [h.injective (Fin.ext hEq)] at hAge
      exact Nat.lt_irrefl _ hAge
  contents := h.contents hRep
  inPlace := by
    intro i p hValid hOn hWrite hKey
    rw [(h.write_hit hRep ⟨hOn, hWrite⟩ hValid hKey.symm).2, hKey]
    exact ⟨Function.update_eq_self i c.keysR,
      Function.update_eq_self_iff.2 hValid.symm, rfl⟩

end Operations

/--
**The content-addressable memory.**  After reset, any sequence of operations
shows what an LRU map of eight entries shows, and the registers hold that map:
distinct keys, the ranks a permutation in the order of the last uses with the
valid entries first, and a write of a present key stays in its entry.
-/
theorem cam_refines {c : Cam} (hReset : c.IsReset) (ps : List CamPorts) :
    (spec CamKey CamVal camsizeP).Accepts [] (camMachine.events c ps) ∧
      Stores (camMachine.run c ps) (camMachine.events c ps).reverse := by
  have hLegal : camMachine.Legal c ps :=
    camMachine.always_of_forall (fun _ _ => trivial) c ps
  obtain ⟨hAcc, m, hHolds, hRep⟩ := camMachine.simulates
    (spec CamKey CamVal camsizeP)
    (R := fun c hist => ∃ m, Holds c m ∧ Represents camsizeP m hist)
    (fun c hist p ⟨m, h, hRep⟩ _ => h.step hRep p)
    ps c [] ⟨[], hReset.holds, represents_nil camsizeP⟩ hLegal
  rw [after_spec, List.append_nil] at hRep
  exact ⟨hAcc, hHolds.stores hRep⟩

/-- Nine keys are written, the first of them read before the last: the second
one goes. -/
theorem cam_refines_evicted :
    let c : Cam := ⟨fun _ => 0, fun _ => 0, id, fun _ => false⟩
    let ps : List CamPorts :=
      [⟨false, true, 0, 10⟩, ⟨false, true, 1, 11⟩, ⟨false, true, 2, 12⟩,
        ⟨false, true, 3, 13⟩, ⟨false, true, 4, 14⟩, ⟨false, true, 5, 15⟩,
        ⟨false, true, 6, 16⟩, ⟨false, true, 7, 17⟩, ⟨true, true, 0, 0⟩,
        ⟨false, true, 8, 18⟩, ⟨true, true, 1, 0⟩]
    Stores (camMachine.run c ps) (camMachine.events c ps).reverse ∧
      (camMachine.events c ps).drop 8 =
        [.read 0 (some 10), .write 8 18 [1], .read 1 none] :=
  ⟨(cam_refines ⟨fun _ => rfl, fun _ => rfl⟩ _).2, by decide +kernel⟩

end Cam

end CompE.Mp0
