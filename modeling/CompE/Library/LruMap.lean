import CompE.Library.Machine
import Mathlib.Data.List.Perm.Subperm

/-!
# Maps of bounded size with least-recently-used replacement

What such a map has to do is said of the history of its operations alone
(`spec`): a read gives the latest value written and not evicted since, and a
new key evicts the one whose last use lies farthest back, if the map is full
and only then.  Reads and writes both count as uses.

The list of the entries, most recently used first, is the usual way to meet
this.  `Represents` ties such a list to a history, and the rules after it say
what each operation does to the list.  They are all that a design needs to know
of histories.
-/

namespace CompE.Library.LruMap

open CompE.Library

variable {Key Val : Type}

/-- One operation and what is seen of it. -/
inductive Event (Key Val : Type) where
  | read (k : Key) (result : Option Val)
  | write (k : Key) (v : Val) (evicted : List Key)
deriving DecidableEq

/-- The key that the operation uses. -/
def Event.key : Event Key Val → Key
  | .read k _ => k
  | .write k _ _ => k

@[simp] theorem key_write (k : Key) (v : Val) (evicted : List Key) :
    (Event.write k v evicted).key = k := rfl

/-! ## Histories, newest operation first -/

variable [DecidableEq Key]

/-- The latest value written under a key and not evicted since. -/
def stored : List (Event Key Val) → Key → Option Val
  | [], _ => none
  | .read _ _ :: hist, k => stored hist k
  | .write k' v evicted :: hist, k =>
      if k = k' then some v else if k ∈ evicted then none else stored hist k

/-- How many operations back the last use of a key lies. -/
def age (hist : List (Event Key Val)) (k : Key) : Nat :=
  hist.findIdx fun e => e.key == k

/-- `cap` keys are stored. -/
def Full (cap : Nat) (hist : List (Event Key Val)) : Prop :=
  ∃ ks : List Key, ks.Nodup ∧ ks.length = cap ∧ ∀ k ∈ ks, stored hist k ≠ none

/-- Every other stored key was used later. -/
structure LeastRecent (hist : List (Event Key Val)) (k : Key) : Prop where
  isStored : stored hist k ≠ none
  oldest : ∀ k', stored hist k' ≠ none → k' ≠ k → age hist k' < age hist k

/-- What is evicted by a write. -/
structure Evicts (cap : Nat) (hist : List (Event Key Val)) (k : Key)
    (evicted : List Key) : Prop where
  nothing : stored hist k ≠ none ∨ ¬ Full cap hist → evicted = []
  leastRecent : stored hist k = none → Full cap hist →
    ∃ k', evicted = [k'] ∧ LeastRecent hist k'

/-- The histories of a map of `cap` entries. -/
def spec (Key Val : Type) [DecidableEq Key] (cap : Nat) :
    Acceptor (List (Event Key Val)) (Event Key Val) where
  good hist
    | .read k result => result = stored hist k
    | .write k _ evicted => Evicts cap hist k evicted
  next hist e := e :: hist

theorem after_spec (cap : Nat) (es : List (Event Key Val)) :
    ∀ hist, (spec Key Val cap).after hist es = es.reverse ++ hist := by
  induction es with
  | nil => intro hist; rfl
  | cons e es ih =>
      intro hist
      rw [Acceptor.after, ih, List.reverse_cons, List.append_assoc]
      rfl

theorem age_cons_self (e : Event Key Val) (hist : List (Event Key Val)) :
    age (e :: hist) e.key = 0 := by
  simp [age, List.findIdx_cons]

theorem age_cons_of_ne {e : Event Key Val} {k : Key} (h : e.key ≠ k)
    (hist : List (Event Key Val)) : age (e :: hist) k = age hist k + 1 := by
  have hKey : (e.key == k) = false := beq_eq_false_iff_ne.2 h
  simp [age, List.findIdx_cons, hKey]

/-! ## The list of entries -/

/-- The list holds what the history has stored, most recently used first. -/
structure Represents (cap : Nat) (m : List (Key × Val))
    (hist : List (Event Key Val)) : Prop where
  mem_iff : ∀ k v, (k, v) ∈ m ↔ stored hist k = some v
  recent : m.Pairwise fun a b => age hist a.1 < age hist b.1
  room : m.length ≤ cap

section Rules

variable {cap r : Nat} {m rest : List (Key × Val)}
  {hist : List (Event Key Val)} {k k' : Key} {v v' : Val}

theorem represents_nil (cap : Nat) :
    Represents cap ([] : List (Key × Val)) [] where
  mem_iff := by simp [stored]
  recent := List.Pairwise.nil
  room := Nat.zero_le cap

theorem Represents.key_ne (hRep : Represents cap m hist) :
    m.Pairwise fun a b => a.1 ≠ b.1 := by
  apply hRep.recent.imp
  intro a b hAge hEq
  rw [hEq] at hAge
  exact Nat.lt_irrefl _ hAge

/-- No key is there twice. -/
theorem Represents.keys_nodup (hRep : Represents cap m hist) :
    (m.map Prod.fst).Nodup := by
  rw [List.Nodup, List.pairwise_map]
  exact hRep.key_ne

theorem Represents.notMem_of_none (hRep : Represents cap m hist)
    (hNone : stored hist k = none) : (k, v) ∉ m := by
  rw [hRep.mem_iff, hNone]
  simp

theorem Represents.full_iff (hRep : Represents cap m hist) :
    Full cap hist ↔ m.length = cap := by
  constructor
  · rintro ⟨ks, hNodup, hLength, hStored⟩
    have hSubset : ks ⊆ m.map Prod.fst := by
      intro k hk
      obtain ⟨v, hv⟩ := Option.ne_none_iff_exists'.1 (hStored k hk)
      exact List.mem_map.2 ⟨(k, v), (hRep.mem_iff k v).2 hv, rfl⟩
    have hLe := (hNodup.subperm hSubset).length_le
    have hRoom := hRep.room
    rw [List.length_map] at hLe
    omega
  · intro hLength
    refine ⟨m.map Prod.fst, hRep.keys_nodup, by rw [List.length_map, hLength], ?_⟩
    intro k hk
    obtain ⟨⟨k', v⟩, hMem, rfl⟩ := List.mem_map.1 hk
    rw [(hRep.mem_iff k' v).1 hMem]
    exact Option.some_ne_none v

/-- An operation on `k` puts its entry in front of entries that were there. -/
theorem Represents.cons (hRep : Represents cap m hist)
    (e : Event Key Val) (hSub : rest.Sublist m) (hRoom : rest.length < cap)
    (hSelf : stored (e :: hist) e.key = some v)
    (hOther : ∀ k w, k ≠ e.key →
      ((k, w) ∈ rest ↔ stored (e :: hist) k = some w))
    (hGone : ∀ w, (e.key, w) ∉ rest) :
    Represents cap ((e.key, v) :: rest) (e :: hist) where
  mem_iff := by
    intro k w
    by_cases hKey : k = e.key
    · subst hKey
      rw [hSelf, List.mem_cons, Option.some.injEq]
      simp [hGone, eq_comm]
    · rw [← hOther k w hKey, List.mem_cons]
      simp [hKey]
  recent := by
    have hNe : ∀ a ∈ rest, e.key ≠ a.1 := by
      intro a ha hEq
      apply hGone a.2
      rw [hEq]
      exact ha
    apply List.Pairwise.cons
    · intro a ha
      rw [age_cons_self, age_cons_of_ne (hNe a ha)]
      exact Nat.succ_pos _
    · apply (hRep.recent.sublist hSub).imp_of_mem
      intro a b ha hb hAge
      rw [age_cons_of_ne (hNe a ha), age_cons_of_ne (hNe b hb)]
      exact Nat.succ_lt_succ hAge
  room := hRoom

/-- Without the entry at `r`, the list holds the other keys. -/
theorem Represents.mem_eraseIdx (hRep : Represents cap m hist)
    (hAt : m[r]? = some (k, v)) {a : Key × Val} :
    a ∈ m.eraseIdx r ↔ a ∈ m ∧ a.1 ≠ k := by
  have hNe := List.pairwise_iff_getElem.1 hRep.key_ne
  obtain ⟨hLt, hEq⟩ := List.getElem?_eq_some_iff.1 hAt
  rw [List.mem_eraseIdx_iff_getElem, List.mem_iff_getElem]
  constructor
  · rintro ⟨i, hi, hir, rfl⟩
    refine ⟨⟨i, hi, rfl⟩, ?_⟩
    rcases Nat.lt_or_gt_of_ne hir with hBefore | hAfter
    · simpa [hEq] using hNe i r hi hLt hBefore
    · simpa [hEq, eq_comm] using hNe r i hLt hi hAfter
  · rintro ⟨⟨i, hi, rfl⟩, hKey⟩
    refine ⟨i, hi, ?_, rfl⟩
    intro hEqIdx
    subst hEqIdx
    exact hKey (by rw [hEq])

/-- A read of a stored key moves its entry to the front. -/
theorem Represents.read_hit (hRep : Represents cap m hist)
    (hAt : m[r]? = some (k, v)) :
    (spec Key Val cap).good hist (.read k (some v)) ∧
      Represents cap ((k, v) :: m.eraseIdx r) (.read k (some v) :: hist) := by
  have hStored : stored hist k = some v :=
    (hRep.mem_iff k v).1 (List.mem_of_getElem? hAt)
  obtain ⟨hLt, _⟩ := List.getElem?_eq_some_iff.1 hAt
  have hRoom := hRep.room
  refine ⟨hStored.symm, hRep.cons (.read k (some v)) (List.eraseIdx_sublist m r)
    ?_ hStored ?_ ?_⟩
  · rw [List.length_eraseIdx_of_lt hLt]
    omega
  · intro k' w hKey
    rw [hRep.mem_eraseIdx hAt, hRep.mem_iff]
    exact and_iff_left hKey
  · intro w hMem
    exact ((hRep.mem_eraseIdx hAt).1 hMem).2 rfl

/-- A read of another key leaves the list. -/
theorem Represents.read_miss (hRep : Represents cap m hist)
    (hNone : stored hist k = none) :
    (spec Key Val cap).good hist (.read k none) ∧
      Represents cap m (.read k none :: hist) := by
  have hShift : ∀ a ∈ m, age (.read k none :: hist) a.1 = age hist a.1 + 1 := by
    intro a ha
    apply age_cons_of_ne
    intro hEq
    have hMem : (k, a.2) ∈ m := by
      rw [show k = a.1 from hEq]
      exact ha
    exact hRep.notMem_of_none hNone hMem
  refine ⟨hNone.symm, hRep.mem_iff, ?_, hRep.room⟩
  apply hRep.recent.imp_of_mem
  intro a b ha hb hAge
  rw [hShift a ha, hShift b hb]
  exact Nat.succ_lt_succ hAge

/-- A write of a stored key moves its entry to the front with the new value. -/
theorem Represents.write_hit (hRep : Represents cap m hist)
    (hAt : m[r]? = some (k, v')) (v : Val) :
    (spec Key Val cap).good hist (.write k v []) ∧
      Represents cap ((k, v) :: m.eraseIdx r) (.write k v [] :: hist) := by
  have hStored : stored hist k = some v' :=
    (hRep.mem_iff k v').1 (List.mem_of_getElem? hAt)
  obtain ⟨hLt, _⟩ := List.getElem?_eq_some_iff.1 hAt
  have hRoom := hRep.room
  refine ⟨⟨fun _ => rfl, fun hNone => by simp [hStored] at hNone⟩,
    hRep.cons (.write k v []) (List.eraseIdx_sublist m r) ?_ ?_ ?_ ?_⟩
  · rw [List.length_eraseIdx_of_lt hLt]
    omega
  · simp [stored, Event.key]
  · intro k' w hKey
    rw [key_write] at hKey
    rw [hRep.mem_eraseIdx hAt, hRep.mem_iff, stored, if_neg hKey,
      if_neg (List.not_mem_nil)]
    exact and_iff_left hKey
  · intro w hMem
    exact ((hRep.mem_eraseIdx hAt).1 hMem).2 rfl

/-- A new key comes in front while there is room. -/
theorem Represents.write_fresh (hRep : Represents cap m hist)
    (hNone : stored hist k = none) (hRoom : m.length < cap) (v : Val) :
    (spec Key Val cap).good hist (.write k v []) ∧
      Represents cap ((k, v) :: m) (.write k v [] :: hist) := by
  have hNotFull : ¬ Full cap hist := by
    rw [hRep.full_iff]
    omega
  refine ⟨⟨fun _ => rfl, fun _ hFull => absurd hFull hNotFull⟩,
    hRep.cons (.write k v []) (List.Sublist.refl m) hRoom ?_ ?_ ?_⟩
  · simp [stored, Event.key]
  · intro k' w hKey
    rw [key_write] at hKey
    rw [hRep.mem_iff, stored, if_neg hKey, if_neg (List.not_mem_nil)]
  · intro w
    exact hRep.notMem_of_none hNone

/-- A new key takes the place of the last one in a full list. -/
theorem Represents.write_evict (hRep : Represents cap m hist)
    (hNone : stored hist k = none) (hFull : m.length = cap)
    (hLast : r + 1 = m.length) (hAt : m[r]? = some (k', v')) (v : Val) :
    (spec Key Val cap).good hist (.write k v [k']) ∧
      Represents cap ((k, v) :: m.eraseIdx r) (.write k v [k'] :: hist) := by
  have hStored : stored hist k' = some v' :=
    (hRep.mem_iff k' v').1 (List.mem_of_getElem? hAt)
  obtain ⟨hLt, hEq⟩ := List.getElem?_eq_some_iff.1 hAt
  have hOldest : LeastRecent hist k' := by
    refine ⟨by simp [hStored], ?_⟩
    intro y hy hNe
    obtain ⟨w, hw⟩ := Option.ne_none_iff_exists'.1 hy
    obtain ⟨i, hi, hiEq⟩ := List.mem_iff_getElem.1 ((hRep.mem_iff y w).2 hw)
    have hir : i ≠ r := by
      intro hEqIdx
      subst hEqIdx
      rw [hiEq, Prod.mk.injEq] at hEq
      exact hNe hEq.1
    have hAge := List.pairwise_iff_getElem.1 hRep.recent i r hi hLt (by omega)
    rw [hiEq, hEq] at hAge
    exact hAge
  refine ⟨⟨?_, fun _ _ => ⟨k', rfl, hOldest⟩⟩,
    hRep.cons (.write k v [k']) (List.eraseIdx_sublist m r) ?_ ?_ ?_ ?_⟩
  · rintro (hSome | hNotFull)
    · exact absurd hNone hSome
    · exact absurd (hRep.full_iff.2 hFull) hNotFull
  · rw [List.length_eraseIdx_of_lt hLt]
    omega
  · simp [stored, Event.key]
  · intro y w hKey
    rw [key_write] at hKey
    rw [hRep.mem_eraseIdx hAt, hRep.mem_iff, stored, if_neg hKey]
    by_cases hy : y = k'
    · simp [hy]
    · simp [hy]
  · intro w hMem
    exact hRep.notMem_of_none hNone ((hRep.mem_eraseIdx hAt).1 hMem).1

end Rules

end CompE.Library.LruMap
