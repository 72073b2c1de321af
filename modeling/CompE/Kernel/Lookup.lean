import CompE.Kernel.Directory

/-!
# The two directory lookups

A name in a directory entry is 32 bytes, with a terminator when it is shorter;
the name that is looked for always has one.  `read_dentry_by_name` compares at
most 32 characters of both with `strncmp`, after a check that the string is not
longer, and that finds exactly the entry with that name
(`strncmp_eq_zero_iff`).  `read_dentry_by_index` takes one index too many.
-/

namespace CompE.Kernel

/-! ## Comparing names -/

private theorem byte_toInt_sub {a b : Byte} : a.toInt - b.toInt = 0 ↔ a = b := by
  rw [Int.sub_eq_zero]
  exact BitVec.toInt_inj

/-- From character `i` on: what is left of the first name is what is left of
the second. -/
theorem strncmpFrom_eq_zero_iff {f : Nat → Byte} {s : CString}
    (hChars : ∀ c ∈ s, c ≠ 0#8) :
    ∀ (n i : Nat), s.length ≤ i + n →
      (strncmpFrom f (charAt s) i n = 0 ↔
        ((List.range' i n).map f).takeWhile (· ≠ 0#8) = s.drop i) := by
  intro n
  induction n with
  | zero =>
      intro i hLength
      have hEnd : s.drop i = [] := List.drop_eq_nil_of_le hLength
      simp [strncmpFrom, hEnd]
  | succ n ih =>
      intro i hLength
      rw [List.range'_succ, List.map_cons, strncmpFrom]
      by_cases hi : i < s.length
      · have hChar : charAt s i = s[i] := by simp [charAt, hi]
        have hSome : s[i] ≠ 0#8 := hChars _ (List.getElem_mem hi)
        rw [hChar, List.drop_eq_getElem_cons hi]
        by_cases hEq : f i = s[i]
        · rw [if_neg (by rw [hEq]; simp [hSome]), hEq,
            List.takeWhile_cons_of_pos (by simp [hSome]), List.cons.injEq,
            ih (i + 1) (by omega), and_iff_right rfl]
        · rw [if_pos (Or.inl hEq), byte_toInt_sub]
          constructor
          · intro h; exact absurd h hEq
          · intro h
            by_cases hZero : f i = 0#8
            · rw [List.takeWhile_cons_of_neg (by simp [hZero])] at h
              contradiction
            · rw [List.takeWhile_cons_of_pos (by simp [hZero])] at h
              exact (List.cons.inj h).1
      · have hChar : charAt s i = 0#8 := by
          simp [charAt, Nat.le_of_not_lt hi]
        rw [hChar, List.drop_eq_nil_of_le (Nat.le_of_not_lt hi)]
        by_cases hZero : f i = 0#8
        · rw [if_pos (Or.inr hZero), byte_toInt_sub,
            List.takeWhile_cons_of_neg (by simp [hZero])]
          simp [hZero]
        · rw [if_pos (Or.inl hZero), byte_toInt_sub,
            List.takeWhile_cons_of_pos (by simp [hZero])]
          simp [hZero]

/-- The comparison of at most 32 characters finds exactly the equal string. -/
theorem strncmp_eq_zero_iff {f : Nat → Byte} {s : CString}
    (hChars : ∀ c ∈ s, c ≠ 0#8) (hLength : s.length ≤ maxFnameSize) :
    strncmp f (charAt s) 32 = 0 ↔ cstringOf f maxFnameSize = s := by
  have hFrom := strncmpFrom_eq_zero_iff (f := f) hChars 32 0
    (by rw [Nat.zero_add]; exact hLength)
  rw [List.drop_zero, ← List.range_eq_range'] at hFrom
  exact hFrom

/-! ## The search -/

section Search

variable {fs : FileSys} {s : CString}

private theorem findDentry_some {d : Dentry} (hChars : ∀ c ∈ s, c ≠ 0#8)
    (hLength : s.length ≤ maxFnameSize) :
    ∀ (n i : Nat), findDentry fs s i n = some d → ∃ j, i ≤ j ∧ j < i + n ∧
      entryName fs j = s ∧ d.ftype = fs.wordAt (dentryAddr fs j + 32) ∧
      d.inodeNum = fs.wordAt (dentryAddr fs j + 36) := by
  intro n
  induction n with
  | zero => intro i hFind; contradiction
  | succ n ih =>
      intro i hFind
      unfold findDentry at hFind
      simp only at hFind
      split at hFind
      · rename_i hCompare
        injection hFind with hFind
        subst hFind
        exact ⟨i, Nat.le_refl i, by omega,
          (strncmp_eq_zero_iff hChars hLength).1 hCompare, rfl, rfl⟩
      · obtain ⟨j, hFrom, hLt, hEntry⟩ := ih (i + 1) hFind
        exact ⟨j, by omega, by omega, hEntry⟩

private theorem findDentry_isSome (hChars : ∀ c ∈ s, c ≠ 0#8)
    (hLength : s.length ≤ maxFnameSize) {j : Nat} (hName : entryName fs j = s) :
    ∀ (n i : Nat), i ≤ j → j < i + n → (findDentry fs s i n).isSome := by
  intro n
  induction n with
  | zero => intro i hFrom hLt; omega
  | succ n ih =>
      intro i hFrom hLt
      unfold findDentry
      simp only
      split
      · rfl
      · rename_i hCompare
        have hNot : i ≠ j := by
          intro hSame
          subst hSame
          exact hCompare ((strncmp_eq_zero_iff hChars hLength).2 hName)
        exact ih (i + 1) (by omega) (by omega)

end Search

private theorem entryName_length (fs : FileSys) (i : Nat) :
    (entryName fs i).length ≤ maxFnameSize := cstringOf_length _ _

/-- `read_dentry_by_name` of any string. -/
theorem readDentryByName_isSome_iff (fs : FileSys) {s : CString}
    (hChars : ∀ c ∈ s, c ≠ 0#8) :
    (readDentryByName fs s).isSome ↔
      ∃ i, i < getNumDirEntries fs ∧ entryName fs i = s := by
  unfold readDentryByName
  by_cases hLong : s.length > maxFnameSize
  · rw [if_pos hLong]
    constructor
    · intro h; contradiction
    · rintro ⟨i, _, hName⟩
      have hShort := entryName_length fs i
      rw [hName] at hShort
      omega
  · rw [if_neg hLong]
    have hLength := Nat.le_of_not_lt hLong
    constructor
    · intro h
      obtain ⟨d, hFind⟩ := Option.isSome_iff_exists.1 h
      obtain ⟨j, _, hLt, hName, _⟩ := findDentry_some hChars hLength _ 0 hFind
      exact ⟨j, by omega, hName⟩
    · rintro ⟨i, hLt, hName⟩
      exact findDentry_isSome hChars hLength hName _ 0 (Nat.zero_le i) (by omega)

/-! ## The two lookups -/

/-- A directory of `n` entries with names, all different. -/
structure DistinctNames (fs : FileSys) (n : Nat) : Prop where
  count : getNumDirEntries fs = n
  named : ∀ i, i < n → entryName fs i ≠ []
  distinct : ∀ i j, i < n → j < n → entryName fs i = entryName fs j → i = j

/-- An index and a string, looked up. -/
structure LookupsAgree (fs : FileSys) (n idx : Nat) (s : CString) : Prop where
  byIndex : (readDentryByIndex fs idx).isSome ↔ idx < n
  sameEntry : idx < n → ∃ d d', readDentryByIndex fs idx = some d ∧
    d.fname = entryName fs idx ∧
    readDentryByName fs (entryName fs idx) = some d' ∧
    d'.ftype = d.ftype ∧ d'.inodeNum = d.inodeNum
  byName : (readDentryByName fs s).isSome ↔ ∃ i, i < n ∧ entryName fs i = s

private theorem readDentryByIndex_isSome_iff (fs : FileSys) (idx : Nat) :
    (readDentryByIndex fs idx).isSome ↔ idx ≤ getNumDirEntries fs := by
  unfold readDentryByIndex
  split
  · rename_i hPast
    exact ⟨fun h => by contradiction, fun h => absurd hPast (Nat.not_lt.2 h)⟩
  · rename_i hIn
    exact ⟨fun _ => Nat.le_of_not_lt hIn, fun _ => rfl⟩

/-- The name of an entry leads to the entry. -/
theorem DistinctNames.sameEntry {fs : FileSys} {n i : Nat}
    (h : DistinctNames fs n) (hi : i < n) :
    ∃ d d', readDentryByIndex fs i = some d ∧ d.fname = entryName fs i ∧
      readDentryByName fs (entryName fs i) = some d' ∧
      d'.ftype = d.ftype ∧ d'.inodeNum = d.inodeNum := by
  have hCount := h.count
  have hChars := entryName_chars fs i
  have hLength := entryName_length fs i
  have hIndex : readDentryByIndex fs i = _ := readDentryByIndex_eq (by omega)
  obtain ⟨d', hFound⟩ := Option.isSome_iff_exists.1
    ((readDentryByName_isSome_iff fs hChars).2 ⟨i, by omega, rfl⟩)
  have hFind := hFound
  unfold readDentryByName at hFind
  rw [if_neg (Nat.not_lt.2 hLength)] at hFind
  obtain ⟨j, _, hLt, hName, hType, hInode⟩ := findDentry_some hChars hLength _ 0 hFind
  have hSame : j = i := h.distinct j i (by omega) hi hName
  subst hSame
  exact ⟨_, d', hIndex, rfl, hFound, hType, hInode⟩

/--
**The two lookups.**  On any image whose entries have different names, for any
index and any string, they agree exactly when the index is not the number of
entries.
-/
theorem lookups_agree_iff {fs : FileSys} {n : Nat} (hNames : DistinctNames fs n)
    (idx : BitVec 32) {s : CString} (hChars : ∀ c ∈ s, c ≠ 0#8) :
    LookupsAgree fs n idx.toNat s ↔ idx.toNat ≠ n := by
  have hCount := hNames.count
  have hIndex := readDentryByIndex_isSome_iff fs idx.toNat
  have hName := readDentryByName_isSome_iff fs hChars
  rw [hCount] at hIndex hName
  constructor
  · intro h
    have hBoth := hIndex.symm.trans h.byIndex
    omega
  · intro hNe
    exact
      { byIndex := by rw [hIndex]; omega
        sameEntry := fun hi => hNames.sameEntry hi
        byName := hName }

/-! ### Index 2 of two entries -/

private theorem dotImage_distinct : DistinctNames dotImage 2 where
  count := dotImage_directory.count
  named := dotImage_directory.named
  distinct := by
    have hDiffer : entryName dotImage 0 ≠ entryName dotImage 1 := by
      decide +kernel
    intro i j hi hj hName
    have hCases : i = j ∨ (i = 0 ∧ j = 1) ∨ (i = 1 ∧ j = 0) := by omega
    rcases hCases with h | ⟨rfl, rfl⟩ | ⟨rfl, rfl⟩
    · exact h
    · exact absurd hName hDiffer
    · exact absurd hName.symm hDiffer

/-- Index 0 and the name `"."`. -/
theorem lookups_agree_dot : LookupsAgree dotImage 2 (0#32).toNat [0x2e#8] :=
  (lookups_agree_iff dotImage_distinct 0#32 (by decide)).2 (by decide)

/-- The index behind the last entry gives an entry without a name. -/
theorem dotImage_indexBehind :
    DistinctNames dotImage 2 ∧
    readDentryByIndex dotImage (2#32).toNat =
      some { fname := [], ftype := 0, inodeNum := 0 } ∧
    ¬ LookupsAgree dotImage 2 (2#32).toNat [0x2e#8] := by
  have hEntry : readDentryByIndex dotImage (2#32).toNat =
      some { fname := [], ftype := 0, inodeNum := 0 } := by
    decide +kernel
  refine ⟨dotImage_distinct, hEntry, ?_⟩
  intro h
  have hIn := h.byIndex.1 (by rw [hEntry]; rfl)
  revert hIn
  decide

end CompE.Kernel
