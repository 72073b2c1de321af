import CompE.Library.Machine

/-!
# Masked memories

A memory maps keys (line numbers, word addresses) to blocks of byte lanes.  A
store replaces the lanes its mask selects and leaves the others alone; a load
returns a whole block.  The purpose of a memory is stated on its history:
a lane reads as the last store to that lane, or as the initial content when
there is none (`latest`).  The running memory `flat` computes exactly that,
so the acceptor built from it accepts a history exactly when every load
returned the latest stored lanes (`accepts_iff_readsLatest`).

Keys, lanes and bytes are arbitrary types; nothing here names a design.
-/

namespace CompE.Library.LaneMemory

variable {Key Lane Byte : Type}

/-- A block of byte lanes under a write mask: selected lanes are replaced. -/
def merge (mask : Lane → Bool) (new old : Lane → Byte) : Lane → Byte :=
  fun i => if mask i then new i else old i

/-- The content of a memory: one block per key. -/
abbrev Content (Key Lane Byte : Type) := Key → Lane → Byte

/-- A masked store. -/
def store [DecidableEq Key] (m : Content Key Lane Byte) (k : Key)
    (mask : Lane → Bool) (v : Lane → Byte) : Content Key Lane Byte :=
  fun k' => if k' = k then merge mask v (m k) else m k'

theorem merge_apply (mask : Lane → Bool) (new old : Lane → Byte) (i : Lane) :
    merge mask new old i = if mask i then new i else old i := rfl

@[simp] theorem merge_true (new old : Lane → Byte) :
    merge (fun _ => true) new old = new := by
  funext i; simp [merge]

@[simp] theorem merge_false (new old : Lane → Byte) :
    merge (fun _ => false) new old = old := by
  funext i; simp [merge]

/-- A merge whose unselected lanes already agree is a full replacement. -/
theorem merge_eq_of_agree {mask : Lane → Bool} {new old : Lane → Byte}
    (h : ∀ i, mask i = false → new i = old i) : merge mask new old = new := by
  funext i
  by_cases hi : mask i = true
  · simp [merge, hi]
  · rw [merge_apply, if_neg hi]
    exact (h i (by simpa using hi)).symm

@[simp] theorem store_self [DecidableEq Key] (m : Content Key Lane Byte)
    (k : Key) (mask : Lane → Bool) (v : Lane → Byte) :
    store m k mask v k = merge mask v (m k) := by
  simp [store]

theorem store_of_ne [DecidableEq Key] (m : Content Key Lane Byte)
    {k k' : Key} (mask : Lane → Bool) (v : Lane → Byte) (h : k' ≠ k) :
    store m k mask v k' = m k' := by
  simp [store, h]

/-- Masks that merge alike store alike. -/
theorem store_congr [DecidableEq Key] {m : Content Key Lane Byte} {k : Key}
    {mask mask' : Lane → Bool} {v : Lane → Byte}
    (h : merge mask v (m k) = merge mask' v (m k)) :
    store m k mask v = store m k mask' v := by
  funext k'
  by_cases hk : k' = k
  · subst hk; rw [store_self, store_self, h]
  · rw [store_of_ne _ _ _ hk, store_of_ne _ _ _ hk]

/-- What an observer of the memory sees. -/
inductive Event (Key Lane Byte : Type) where
  | load (k : Key) (v : Lane → Byte)
  | store (k : Key) (mask : Lane → Bool) (v : Lane → Byte)

/-! ## The history reading -/

/-- One byte's value across one event. -/
def latestStep [DecidableEq Key] (k : Key) (i : Lane) (cur : Byte) :
    Event Key Lane Byte → Byte
  | .load _ _ => cur
  | .store k' mask v => if k' = k ∧ mask i = true then v i else cur

/-- The value of lane `i` of block `k` after a history: the last store to
that lane, or the initial byte if there is none. -/
def latest [DecidableEq Key] (init : Content Key Lane Byte)
    (history : List (Event Key Lane Byte)) (k : Key) (i : Lane) : Byte :=
  history.foldl (latestStep k i) (init k i)

/-- Every load of the history returned, in each lane, the latest store that
precedes it. -/
def ReadsLatest [DecidableEq Key] (init : Content Key Lane Byte)
    (history : List (Event Key Lane Byte)) : Prop :=
  ∀ pre k v post, history = pre ++ Event.load k v :: post →
    ∀ i, v i = latest init pre k i

/-! ## The running memory -/

/-- The flat memory as an acceptor: a load must return the current block, a
store updates it. -/
def flat (Key Lane Byte : Type) [DecidableEq Key] :
    Acceptor (Content Key Lane Byte) (Event Key Lane Byte) where
  good m
    | .load k v => ∀ i, v i = m k i
    | .store _ _ _ => True
  next m
    | .load _ _ => m
    | .store k mask v => store m k mask v

instance decidableGood {n : Nat} [DecidableEq Key] [DecidableEq Byte]
    (m : Content Key (Fin n) Byte) (e : Event Key (Fin n) Byte) :
    Decidable ((flat Key (Fin n) Byte).good m e) :=
  match e with
  | .load k v => Nat.decidableForallFin fun i => v i = m k i
  | .store _ _ _ => .isTrue trivial

theorem flat_next_apply [DecidableEq Key] (m : Content Key Lane Byte)
    (e : Event Key Lane Byte) (k : Key) (i : Lane) :
    (flat Key Lane Byte).next m e k i = latestStep k i (m k i) e := by
  cases e with
  | load k' v => rfl
  | store k' mask v =>
      by_cases hk : k = k'
      · subst hk; simp [flat, latestStep, merge_apply]
      · simp [flat, latestStep, store_of_ne _ _ _ hk, Ne.symm hk]

/-- The running memory holds the latest stored lanes. -/
theorem flat_after_apply [DecidableEq Key] (m : Content Key Lane Byte)
    (history : List (Event Key Lane Byte)) (k : Key) (i : Lane) :
    (flat Key Lane Byte).after m history k i = latest m history k i := by
  induction history generalizing m with
  | nil => rfl
  | cons e es ih =>
      rw [Acceptor.after, ih, latest, latest, List.foldl_cons,
        flat_next_apply]

/-- The flat memory accepts a history exactly when every load returned the
latest stored lanes. -/
theorem accepts_iff_readsLatest [DecidableEq Key]
    (init : Content Key Lane Byte) (history : List (Event Key Lane Byte)) :
    (flat Key Lane Byte).Accepts init history ↔ ReadsLatest init history := by
  constructor
  · intro hAcc pre k v post hSplit i
    subst hSplit
    rw [← flat_after_apply]
    exact Acceptor.Accepts.good_of_split _ hAcc i
  · intro hReads
    suffices h : ∀ (rest pre : List (Event Key Lane Byte)),
        history = pre ++ rest →
        (flat Key Lane Byte).Accepts ((flat Key Lane Byte).after init pre) rest
      from h history [] rfl
    intro rest
    induction rest with
    | nil => intro pre _; trivial
    | cons e es ih =>
        intro pre hSplit
        constructor
        · cases e with
          | load k v =>
              intro i
              rw [flat_after_apply]
              exact hReads pre k v es hSplit i
          | store k mask v => trivial
        · have hNext := ih (pre ++ [e]) (by simpa using hSplit)
          simpa [Acceptor.after_append, Acceptor.after] using hNext

end CompE.Library.LaneMemory
