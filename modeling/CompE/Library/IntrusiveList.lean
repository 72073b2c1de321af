import Mathlib.Data.Fintype.Card
import Mathlib.Data.List.Nodup

/-!
# Intrusive singly linked lists

Every owner has a list, and a node has one link and says whose list it is in.
Lists are walked through the links, so a walk is bounded and says `none` when
the bound is too small; on lists that end it never is.

What the links stand for is `contents`, one list of nodes for each owner
(`Represents`).  Taking a node out of its list is `take`, putting it in front
of a list is `put`.
-/

namespace CompE.Library

variable {Owner Node : Type}

/-- The first node of each owner's list, and the two fields of a node. -/
structure Lists (Owner Node : Type) where
  head : Owner → Option Node
  next : Node → Option Node
  owner : Node → Option Owner

/-- The links from a first node run through these nodes and end. -/
inductive Chain (next : Node → Option Node) :
    Option Node → List Node → Prop where
  | nil : Chain next none []
  | cons {a : Node} {as : List Node} (h : Chain next (next a) as) :
      Chain next (some a) (a :: as)

namespace Chain

variable {next next' : Node → Option Node} {start : Option Node}
  {as bs : List Node}

/-- Only the links of its nodes matter. -/
theorem congr (h : Chain next start as) (hNext : ∀ a ∈ as, next' a = next a) :
    Chain next' start as := by
  induction h with
  | nil => exact .nil
  | @cons a as h ih =>
      apply Chain.cons
      rw [hNext a (by simp)]
      exact ih fun b hb => hNext b (by simp [hb])

end Chain

/-- Walk a list for the first node with a property. -/
def search (next : Node → Option Node) (p : Node → Bool) :
    Nat → Option Node → Option (Option Node)
  | _, none => some none
  | 0, some _ => none
  | n + 1, some a => if p a then some (some a) else search next p n (next a)

theorem search_eq {next : Node → Option Node} {start : Option Node}
    {as : List Node} (h : Chain next start as) (p : Node → Bool) {n : Nat}
    (hBound : as.length ≤ n) : search next p n start = some (as.find? p) := by
  induction h generalizing n with
  | nil => cases n <;> rfl
  | @cons a as h ih =>
      cases n with
      | zero => simp at hBound
      | succ n =>
          rw [search, List.find?_cons, ih (by simpa using hBound)]
          cases p a <;> rfl

/-- Walk a whole list. -/
def walk (next : Node → Option Node) : Nat → Option Node → Option (List Node)
  | _, none => some []
  | 0, some _ => none
  | n + 1, some a => (walk next n (next a)).map fun as => a :: as

theorem walk_eq {next : Node → Option Node} {start : Option Node}
    {as : List Node} (h : Chain next start as) {n : Nat}
    (hBound : as.length ≤ n) : walk next n start = some as := by
  induction h generalizing n with
  | nil => cases n <;> rfl
  | @cons a as h ih =>
      cases n with
      | zero => simp at hBound
      | succ n =>
          rw [walk, ih (by simpa using hBound)]
          rfl

/-- A place that holds a link. -/
inductive Link (Owner Node : Type) where
  | head (r : Owner)
  | next (a : Node)
  deriving DecidableEq

namespace Lists

variable [DecidableEq Owner] [DecidableEq Node]

def load (L : Lists Owner Node) : Link Owner Node → Option Node
  | .head r => L.head r
  | .next a => L.next a

def store (L : Lists Owner Node) (l : Link Owner Node) (v : Option Node) :
    Lists Owner Node :=
  match l with
  | .head r => { L with head := Function.update L.head r v }
  | .next a => { L with next := Function.update L.next a v }

/-- Walk the places that hold links for the one that holds `o`. -/
def findLink (L : Lists Owner Node) (o : Node) (n : Nat)
    (l : Link Owner Node) : Option (Option (Link Owner Node)) :=
  match L.load l with
  | none => some none
  | some a =>
      if a = o then some (some l)
      else
        match n with
        | 0 => none
        | n + 1 => L.findLink o n (.next a)

/-- Take a node out of its owner's list. -/
def unlink (L : Lists Owner Node) (n : Nat) (o : Node) :
    Option (Lists Owner Node) :=
  match L.owner o with
  | none => some L
  | some r =>
      (L.findLink o n (.head r)).map fun found =>
        let L' :=
          match found with
          | none => L
          | some l => L.store l (L.next o)
        { L' with owner := Function.update L'.owner o none }

/-- Put a node in front of an owner's list. -/
def insert (L : Lists Owner Node) (o : Node) (r : Owner) :
    Lists Owner Node where
  head := Function.update L.head r (some o)
  next := Function.update L.next o (L.head r)
  owner := Function.update L.owner o (some r)

/-! ## What the lists stand for -/

/-- The nodes of each owner's list, in order. -/
abbrev Contents (Owner Node : Type) := Owner → List Node

def take (contents : Contents Owner Node) (o : Node) : Contents Owner Node :=
  fun r => (contents r).erase o

def put (contents : Contents Owner Node) (o : Node) (r : Owner) :
    Contents Owner Node :=
  Function.update contents r (o :: contents r)

/-- Every list runs through its contents, and a node is once in the list of
its owner and in no other. -/
structure Represents (L : Lists Owner Node) (contents : Contents Owner Node) :
    Prop where
  chain : ∀ r, Chain L.next (L.head r) (contents r)
  count : ∀ o r, (contents r).count o = if L.owner o = some r then 1 else 0

/-- No lists yet. -/
theorem represents_empty :
    (⟨fun _ => none, fun _ => none, fun _ => none⟩ :
      Lists Owner Node).Represents fun _ => [] := by
  constructor
  · intro r
    exact .nil
  · intro o r
    rfl

section Represents

variable {L : Lists Owner Node} {contents : Contents Owner Node}

theorem Represents.mem_iff (h : L.Represents contents) {o : Node} {r : Owner} :
    o ∈ contents r ↔ L.owner o = some r := by
  rw [← List.count_pos_iff, h.count]
  split
  · next hOwner => simp [hOwner]
  · next hOwner => simp [hOwner]

theorem Represents.nodup (h : L.Represents contents) (r : Owner) :
    (contents r).Nodup := by
  rw [List.nodup_iff_count_le_one]
  intro o
  rw [h.count]
  split
  · exact Nat.le_refl 1
  · exact Nat.zero_le 1

theorem Represents.length_le [Fintype Node] (h : L.Represents contents)
    (r : Owner) : (contents r).length ≤ Fintype.card Node :=
  (h.nodup r).length_le_card

/-- A node in no list may be cleared. -/
theorem Represents.reset (h : L.Represents contents) {o : Node}
    (hFree : L.owner o = none) :
    ({ L with
        next := Function.update L.next o none
        owner := Function.update L.owner o none } :
      Lists Owner Node).Represents contents := by
  constructor
  · intro r
    apply (h.chain r).congr
    intro b hb
    have hNe : b ≠ o := by
      intro hEq
      rw [hEq, h.mem_iff, hFree] at hb
      cases hb
    exact Function.update_of_ne hNe _ _
  · intro b r
    have hSame : Function.update L.owner o none = L.owner := by
      rw [← hFree, Function.update_eq_self]
    rw [hSame]
    exact h.count b r

theorem load_store_of_ne {k l : Link Owner Node}
    (h : k ≠ l) (v : Option Node) : (L.store l v).load k = L.load k := by
  cases l with
  | head r =>
      cases k with
      | head r' =>
          have hNe : r' ≠ r := fun hEq => h (by rw [hEq])
          exact Function.update_of_ne hNe _ _
      | next a => rfl
  | next b =>
      cases k with
      | head r => rfl
      | next a =>
          have hNe : a ≠ b := fun hEq => h (by rw [hEq])
          exact Function.update_of_ne hNe _ _

theorem load_store_self (l : Link Owner Node) (v : Option Node) :
    (L.store l v).load l = v := by
  cases l with
  | head r => exact Function.update_self _ _ _
  | next a => exact Function.update_self _ _ _

theorem owner_store (l : Link Owner Node) (v : Option Node) :
    (L.store l v).owner = L.owner := by
  cases l <;> rfl

/-- The walk finds the place of a node, and writing the node's link there
takes it out.  Only that place and links of the list's nodes change. -/
theorem findLink_spec {o : Node} {as : List Node} :
    ∀ {n : Nat} {l : Link Owner Node}, Chain L.next (L.load l) as →
      as.Nodup → o ∈ as → (∀ a ∈ as, l ≠ .next a) → as.length ≤ n →
      ∃ l', L.findLink o n l = some (some l') ∧
        (l' = l ∨ ∃ a ∈ as, l' = .next a) ∧
        Chain (L.store l' (L.next o)).next ((L.store l' (L.next o)).load l)
          (as.erase o) := by
  induction as with
  | nil =>
      intro n l _ _ hMem
      cases hMem
  | cons a as ih =>
      intro n l hChain hNodup hMem hPlace hBound
      obtain ⟨hFresh, hNodup⟩ := List.nodup_cons.1 hNodup
      cases hLoad : L.load l with
      | none =>
          rw [hLoad] at hChain
          cases hChain
      | some b =>
          rw [hLoad] at hChain
          cases hChain with
          | cons hRest =>
              by_cases hThis : a = o
              · subst hThis
                refine ⟨l, ?_, Or.inl rfl, ?_⟩
                · rw [findLink, hLoad]
                  exact if_pos rfl
                · rw [List.erase_cons_head, load_store_self]
                  apply hRest.congr
                  intro b hb
                  exact L.load_store_of_ne
                    (fun hEq => hPlace b (by simp [hb]) hEq.symm) _
              · cases n with
                | zero => simp at hBound
                | succ n =>
                    have hMemRest : o ∈ as := by
                      simpa [Ne.symm hThis] using hMem
                    have hPlaceRest : ∀ b ∈ as,
                        (Link.next a : Link Owner Node) ≠ .next b := by
                      intro b hb hEq
                      cases hEq
                      exact hFresh hb
                    obtain ⟨l', hFound, hWhere, hErased⟩ :=
                      ih (l := .next a) hRest hNodup hMemRest hPlaceRest
                        (by simpa using hBound)
                    have hAway : l ≠ l' := by
                      rcases hWhere with rfl | ⟨b, hb, rfl⟩
                      · exact hPlace a (by simp)
                      · exact hPlace b (by simp [hb])
                    refine ⟨l', ?_, Or.inr ?_, ?_⟩
                    · rw [findLink, hLoad]
                      simp only [if_neg hThis]
                      exact hFound
                    · rcases hWhere with rfl | ⟨b, hb, rfl⟩
                      · exact ⟨a, by simp, rfl⟩
                      · exact ⟨b, by simp [hb], rfl⟩
                    · rw [List.erase_cons_tail (by simpa using hThis),
                        L.load_store_of_ne hAway, hLoad]
                      exact .cons hErased

omit [DecidableEq Owner] in
theorem take_of_not_mem {o : Node} (h : ∀ r, o ∉ contents r) :
    take contents o = contents := by
  funext r
  exact List.erase_of_not_mem (h r)

/-- Writing a link of one list leaves the other lists as they are. -/
theorem Represents.chain_store (h : L.Represents contents) {r r' : Owner}
    (hOther : r' ≠ r) {l : Link Owner Node} (v : Option Node)
    (hWhere : l = .head r ∨ ∃ a ∈ contents r, l = .next a) :
    Chain (L.store l v).next ((L.store l v).head r') (contents r') := by
  have hAway : ∀ b ∈ contents r', (Link.next b : Link Owner Node) ≠ l := by
    intro b hb hEq
    rcases hWhere with rfl | ⟨a, ha, rfl⟩
    · cases hEq
    · cases hEq
      rw [h.mem_iff] at hb ha
      rw [hb] at ha
      exact hOther (Option.some.inj ha)
  have hHead : (Link.head r' : Link Owner Node) ≠ l := by
    rintro rfl
    rcases hWhere with hEq | ⟨a, _, hEq⟩
    · exact hOther (Link.head.inj hEq)
    · cases hEq
  have hSame : (L.store l v).head r' = L.head r' := L.load_store_of_ne hHead _
  rw [hSame]
  apply (h.chain r').congr
  intro b hb
  exact L.load_store_of_ne (hAway b hb) _

theorem Represents.count_take (h : L.Represents contents) (o b : Node) (r : Owner) :
    (take contents o r).count b =
      if Function.update L.owner o none b = some r then 1 else 0 := by
  rw [take, List.count_erase, h.count]
  by_cases hb : b = o
  · subst hb
    rw [Function.update_self]
    simp only [BEq.rfl, if_true, reduceCtorEq, if_false]
    split <;> rfl
  · have hOther : (o == b) = false := by simpa using Ne.symm hb
    rw [Function.update_of_ne hb, hOther]
    rfl

/-- Whatever the lists are, a node that has been unlinked is in none. -/
theorem owner_unlink {L' : Lists Owner Node} {n : Nat} {o : Node}
    (h : L.unlink n o = some L') : L'.owner = Function.update L.owner o none := by
  rw [Lists.unlink] at h
  cases hOwner : L.owner o with
  | none =>
      rw [hOwner] at h
      cases h
      rw [← hOwner, Function.update_eq_self]
  | some r =>
      rw [hOwner] at h
      simp only [Option.map_eq_some_iff] at h
      obtain ⟨found, _, hNew⟩ := h
      rw [← hNew]
      cases found with
      | none => rfl
      | some l =>
          show Function.update (L.store l (L.next o)).owner o none = _
          rw [owner_store]

/-- Unlinking takes a node out of its list, if it is in one. -/
theorem Represents.unlink (h : L.Represents contents) {n : Nat}
    (hBound : ∀ r, (contents r).length ≤ n) (o : Node) :
    ∃ L', L.unlink n o = some L' ∧ L'.Represents (take contents o) ∧
      L'.owner = Function.update L.owner o none := by
  cases hOwner : L.owner o with
  | none =>
      have hNot : ∀ r, o ∉ contents r := by
        intro r hMem
        rw [h.mem_iff, hOwner] at hMem
        cases hMem
      refine ⟨L, ?_, ?_, ?_⟩
      · rw [Lists.unlink, hOwner]
      · rw [take_of_not_mem hNot]
        exact h
      · rw [← hOwner, Function.update_eq_self]
  | some r =>
      have hMem : o ∈ contents r := h.mem_iff.2 hOwner
      obtain ⟨l, hFound, hWhere, hErased⟩ := L.findLink_spec
        (l := .head r) (h.chain r) (h.nodup r) hMem (by simp) (hBound r)
      refine ⟨{ L.store l (L.next o) with
        owner := Function.update (L.store l (L.next o)).owner o none }, ?_, ?_, ?_⟩
      · rw [Lists.unlink, hOwner]
        simp only
        rw [hFound]
        rfl
      · constructor
        · intro r'
          by_cases hThis : r' = r
          · subst hThis
            exact hErased
          · have hNot : o ∉ contents r' := by
              intro hIn
              rw [h.mem_iff, hOwner] at hIn
              exact hThis (Option.some.inj hIn).symm
            show Chain (L.store l (L.next o)).next ((L.store l (L.next o)).head r')
              ((contents r').erase o)
            rw [List.erase_of_not_mem hNot]
            exact h.chain_store hThis _ hWhere
        · intro b r'
          show (take contents o r').count b =
            if Function.update (L.store l (L.next o)).owner o none b = some r' then 1
            else 0
          rw [owner_store]
          exact h.count_take o b r'
      · show Function.update (L.store l (L.next o)).owner o none = _
        rw [owner_store]

/-- A node in no list can be put in front of one. -/
theorem Represents.insert (h : L.Represents contents) {o : Node} (r : Owner)
    (hFree : L.owner o = none) :
    (L.insert o r).Represents (put contents o r) := by
  have hNot : ∀ r', o ∉ contents r' := by
    intro r' hMem
    rw [h.mem_iff, hFree] at hMem
    cases hMem
  have hLinks : ∀ r', ∀ b ∈ contents r', (L.insert o r).next b = L.next b := by
    intro r' b hb
    have hNe : b ≠ o := by
      rintro rfl
      exact hNot r' hb
    exact Function.update_of_ne hNe _ _
  constructor
  · intro r'
    by_cases hThis : r' = r
    · subst hThis
      have hFirst : (L.insert o r').next o = L.head r' := Function.update_self _ _ _
      show Chain (L.insert o r').next (Function.update L.head r' (some o) r')
        (Function.update contents r' (o :: contents r') r')
      rw [Function.update_self, Function.update_self]
      apply Chain.cons
      rw [hFirst]
      exact (h.chain r').congr (hLinks r')
    · show Chain (L.insert o r).next (Function.update L.head r (some o) r')
        (Function.update contents r (o :: contents r) r')
      rw [Function.update_of_ne hThis, Function.update_of_ne hThis]
      exact (h.chain r').congr (hLinks r')
  · intro b r'
    show (Function.update contents r (o :: contents r) r').count b =
      if Function.update L.owner o (some r) b = some r' then 1 else 0
    by_cases hThis : r' = r
    · subst hThis
      rw [Function.update_self, List.count_cons, h.count]
      by_cases hb : b = o
      · subst hb
        simp [hFree]
      · have hOther : (o == b) = false := by simpa using Ne.symm hb
        rw [Function.update_of_ne hb, hOther]
        rfl
    · rw [Function.update_of_ne hThis, h.count]
      by_cases hb : b = o
      · subst hb
        rw [Function.update_self, hFree]
        simp [Ne.symm hThis]
      · rw [Function.update_of_ne hb]

end Represents

end Lists

end CompE.Library
