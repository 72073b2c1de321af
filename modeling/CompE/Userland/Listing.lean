import CompE.Userland.Session

/-!
# `cat` and `ls`

Both read a descriptor until a read returns nothing, and write what came back
to the console.  `cat` reads by kilobytes, so it prints a file whose end is
guarded as it is, and any other with one byte behind it (`cat_prints`).  `ls`
reads a name at a time from where the last user of its descriptor has left off
(`ls_prints`).
-/

namespace CompE.Userland

open CompE.Kernel

/-- The bytes of a string constant. -/
def text (s : String) : CString := s.toList.map fun c => BitVec.ofNat 8 c.toNat

def nl : Byte := 10#8

/-! ## `ece391cat.c` -/

/-- The loop of `cat`; a program is given the number of passes that it may
make.  The result is the exit status. -/
def catLoop (fs : FileSys) (fd : Nat) : Nat → Buffer → Session → Option (Nat × Session)
  | 0, _, _ => none
  | n + 1, buf, s =>
      match s.read fs fd buf 1024 with
      | none => some (3, s.fdputs (text "file read failed\n"))
      | some (cnt, buf, s) =>
          if cnt = 0 then some (0, s)
          else
            match s.write buf cnt with
            | none => some (3, s)
            | some s => catLoop fs fd n buf s

/-- `main` of `cat`.  `args` is what `getargs` finds, and `buf` is what is in
the array before. -/
def cat (fs : FileSys) (n : Nat) (args : Option CString) (buf : Buffer)
    (s : Session) : Option (Nat × Session) :=
  match args with
  | none => some (3, s.fdputs (text "could not read arguments\n"))
  | some name =>
      match s.openFile fs name with
      | none => some (2, s.fdputs (text "file not found\n"))
      | some (fd, s) => catLoop fs fd n buf s

/-! ## `ece391ls.c` -/

/-- The loop of `ls`. -/
def lsLoop (fs : FileSys) (fd : Nat) : Nat → Buffer → Session → Option (Nat × Session)
  | 0, _, _ => none
  | n + 1, buf, s =>
      match s.read fs fd buf 32 with
      | none => some (3, s.fdputs (text "directory entry read failed\n"))
      | some (cnt, buf, s) =>
          if cnt = 0 then some (0, s)
          else
            match s.write (Function.update buf cnt nl) (cnt + 1) with
            | none => some (3, s)
            | some s => lsLoop fs fd n (Function.update buf cnt nl) s

/-- `main` of `ls`. -/
def ls (fs : FileSys) (n : Nat) (buf : Buffer) (s : Session) :
    Option (Nat × Session) :=
  match s.openFile fs (text ".") with
  | none => some (2, s.fdputs (text "directory open failed\n"))
  | some (fd, s) => lsLoop fs fd n buf s

/-! ## Opening -/

section Opening

variable {fs : FileSys} {s : Session} {name : CString} {d : Dentry} {fd : Nat}

/-- What a program finds of a name it opens. -/
theorem Session.openFile_some {ops : FileOps} (hFound : readDentryByName fs name = some d)
    (hType : fileOpsOf d.ftype = some ops) (hFree : getFreeFd s.files = some fd) :
    s.openFile fs name = some (fd, { s with
      files := Function.update s.files fd (openedDesc d ops (s.files fd)) }) := by
  have hCall : sysOpen fs (some name) s.files =
      ((fd : Int), Function.update s.files fd (openedDesc d ops (s.files fd))) := by
    rw [sysOpen, hFound]
    simp only [openByType_eq hFound, hType, hFree]
    rfl
  rw [Session.openFile, hCall]
  simp only
  rw [if_neg (by omega), Int.toNat_natCast]

/-- A regular file that has been opened is read from its start. -/
theorem reading_opened (hFile : RegularFile fs d.inodeNum) (files : FileArray) :
    Reading fs (Function.update files fd (openedDesc d .regfile (files fd))) fd
      (delivered fs d.inodeNum) where
  inUse := by simp [openedDesc]
  regular := by simp [openedDesc]
  file := by simpa [openedDesc] using hFile
  aligned := by simp [openedDesc]
  pos_le := by simp [openedDesc]
  rest_eq := by simp [openedDesc]

theorem free_ne_console {files : FileArray} (h : getFreeFd files = some fd) : fd ≠ 1 := by
  have hLow := (getFreeFd_some h).1
  omega

end Opening

/-! ## What `cat` prints -/

section Cat

variable {fs : FileSys} {fd : Nat}

/-- Everything that is still to come is printed. -/
theorem catLoop_prints {rest : List Byte} (n : Nat) {s : Session}
    (hReading : Reading fs s.files fd rest) (hConsole : Console s.files) (hFd : fd ≠ 1)
    (hn : rest.length < n) (buf : Buffer) :
    ∃ d, catLoop fs fd n buf s = some (0,
      { s.print rest with files := Function.update s.files fd d }) := by
  induction n generalizing rest s buf with
  | zero => omega
  | succ n ih =>
      obtain ⟨pos, hRead, hNext⟩ := hReading.read buf (n := 1024) (by decide) fun _ => rfl
      rw [catLoop, hRead]
      by_cases hEmpty : rest = []
      · refine ⟨{ s.files fd with pos := pos }, ?_⟩
        subst hEmpty
        simp only [List.take_nil, List.length_nil, if_pos, Session.print_nil]
      · have hPos : 0 < rest.length := List.length_pos_iff.2 hEmpty
        have hSome : (rest.take 1024).length ≠ 0 := by
          rw [List.length_take]
          omega
        have hSmall : (rest.take 1024).length ≤ 1024 := by
          rw [List.length_take]
          omega
        have hStill : Console (Function.update s.files fd
            { s.files fd with pos := pos }) := hConsole.update hFd _
        simp only [if_neg hSome]
        rw [Session.write_console hStill _ (by omega), bytesOf_overwrite]
        obtain ⟨d, hRest⟩ := ih
          (s := { s.print (rest.take 1024) with
            files := Function.update s.files fd { s.files fd with pos := pos } })
          hNext hStill (by rw [List.length_drop]; omega)
          (overwrite buf (rest.take 1024))
        refine ⟨d, hRest.trans ?_⟩
        simp only [Session.print, Function.update_idem, List.append_assoc,
          List.take_append_drop]

/--
**What `cat` prints.**  For every regular file, on a console and with a free
descriptor, `cat` ends with status 0 and has printed the content and then the
byte that stands behind it in its last block, but for a file that fills its
last block and whose block table has an impossible number next.
-/
theorem cat_prints {s : Session} {name : CString} {d : Dentry}
    (hFound : readDentryByName fs name = some d) (hType : d.ftype = 2)
    (hFile : RegularFile fs d.inodeNum) (hFree : getFreeFd s.files = some fd)
    (hConsole : Console s.files) (buf : Buffer) {n : Nat}
    (hn : getInodeLen fs d.inodeNum + 1 < n) :
    ∃ s', cat fs n (some name) buf s = some (0, s') ∧
      (∀ j, j ≠ fd → s'.files j = s.files j) ∧
      s'.printed = s.printed ++ fileContent fs d.inodeNum ++
        if EndGuarded fs d.inodeNum then []
        else [tableByte fs (inodePtr fs d.inodeNum) (getInodeLen fs d.inodeNum)] := by
  have hOps : fileOpsOf d.ftype = some .regfile := by rw [hType]; rfl
  have hFd := free_ne_console hFree
  have hLength : (delivered fs d.inodeNum).length < n := by
    rw [delivered_length, deliveredLength]
    split <;> omega
  obtain ⟨desc, hLoop⟩ := catLoop_prints n
    (s := { s with
      files := Function.update s.files fd (openedDesc d .regfile (s.files fd)) })
    (reading_opened hFile s.files) (hConsole.update hFd _) hFd hLength buf
  have hCat : cat fs n (some name) buf s = catLoop fs fd n buf { s with
      files := Function.update s.files fd (openedDesc d .regfile (s.files fd)) } := by
    rw [cat]
    simp only [Session.openFile_some hFound hOps hFree]
  refine ⟨_, hCat.trans hLoop, ?_, ?_⟩
  · intro j hj
    simp [hj]
  · simp [Session.print, delivered_eq hFile, List.append_assoc]

/-- The three bytes of a file, and a zero. -/
theorem cat_prints_tinyFile :
    ∃ s', cat tinyImage 9 (some [0x61#8]) (fun _ => 0#8) ⟨freshFiles, []⟩ =
        some (0, s') ∧
      (∀ j, j ≠ 2 → s'.files j = freshFiles j) ∧
      s'.printed = [0x78#8, 0x79#8, 0x7a#8, 0#8] := by
  have hFile : RegularFile tinyImage 0 := by
    have hFirst := tinyImage_wellFormed.files 0 (by decide +kernel) (by decide +kernel)
    rwa [show tinyImage.wordAt (dentryAddr tinyImage 0 + 36) = 0 by decide +kernel] at hFirst
  obtain ⟨s', hRun, hOthers, hPrinted⟩ := cat_prints (s := ⟨freshFiles, []⟩)
    tinyImage_found rfl hFile (show getFreeFd freshFiles = some 2 by decide) (by decide)
    (fun _ => 0#8) (n := 9)
    (by decide +kernel)
  refine ⟨s', hRun, hOthers, hPrinted.trans ?_⟩
  decide +kernel

end Cat

/-! ## What `ls` prints -/

/-- The names that a program finds from an index on, up to the first that is
empty. -/
def listing (fs : FileSys) (pos : Nat) : List CString :=
  ((List.range' pos (getNumDirEntries fs + 1 - pos)).map (shown fs)).takeWhile (· ≠ [])

theorem listing_of_shown {fs : FileSys} {pos : Nat} (h : shown fs pos ≠ []) :
    listing fs pos = shown fs pos :: listing fs (pos + 1) := by
  have hIndex : pos ≤ getNumDirEntries fs := by
    by_contra hPast
    exact h (if_neg hPast)
  rw [listing, show getNumDirEntries fs + 1 - pos =
    (getNumDirEntries fs + 1 - (pos + 1)) + 1 by omega, List.range'_succ, List.map_cons,
    List.takeWhile_cons_of_pos (by simpa using h)]
  rfl

theorem listing_of_empty {fs : FileSys} {pos : Nat} (h : shown fs pos = []) :
    listing fs pos = [] := by
  rw [listing]
  cases hCount : getNumDirEntries fs + 1 - pos with
  | zero => rfl
  | succ k =>
      rw [List.range'_succ, List.map_cons, List.takeWhile_cons_of_neg (by simp [h])]

theorem listing_length (fs : FileSys) (pos : Nat) :
    (listing fs pos).length ≤ getNumDirEntries fs + 1 := by
  have hSub : (listing fs pos).length ≤
      ((List.range' pos (getNumDirEntries fs + 1 - pos)).map (shown fs)).length :=
    (List.takeWhile_sublist _).length_le
  rw [List.length_map, List.length_range'] at hSub
  omega

section Ls

variable {fs : FileSys} {fd : Nat}

/-- Descriptor `fd` is open on the directory. -/
structure Listing (files : FileArray) (fd : Nat) : Prop where
  inUse : (files fd).inUse = true
  dir : (files fd).optbl = .dir

theorem listing_opened (d : Dentry) (files : FileArray) :
    Listing (Function.update files fd (openedDesc d .dir (files fd))) fd where
  inUse := by simp [openedDesc]
  dir := by simp [openedDesc]

/-- A read of the directory gives the name at the position. -/
theorem Listing.read (fs : FileSys) {s : Session} (h : Listing s.files fd) (buf : Buffer) :
    ∃ buf', s.read fs fd buf 32 = some ((shown fs (s.files fd).pos).length, buf',
        { s with files := Function.update s.files fd { s.files fd with
            pos :=
              if (s.files fd).pos ≤ getNumDirEntries fs then u32 ((s.files fd).pos + 1)
              else (s.files fd).pos } }) ∧
      bytesOf buf' (shown fs (s.files fd).pos).length = shown fs (s.files fd).pos := by
  obtain ⟨hCount, hBytes, hFiles⟩ := dirRead_spec fs s.files fd buf
  have hCall : sysRead fs fd buf (BitVec.ofNat 32 32) ⟨fun _ => 0#8, 0⟩ s.files =
      some (⟨(dirRead fs s.files fd buf 32).1, some (dirRead fs s.files fd buf 32).2.1⟩,
        (dirRead fs s.files fd buf 32).2.2) := by
    rw [sysRead, if_neg (by simp [h.inUse]), h.dir]
    rfl
  refine ⟨(dirRead fs s.files fd buf 32).2.1, ?_, ?_⟩
  · rw [Session.read, hCall]
    simp only
    rw [if_neg (by omega), Int.toNat_natCast, Option.getD_some, hCount, hFiles]
  · rw [← hCount]
    exact hBytes

theorem shown_length (fs : FileSys) (i : Nat) : (shown fs i).length ≤ 32 := by
  rw [shown]
  split
  · exact cstringOf_length _ _
  · simp

/-- The names from the position on are printed, each on a line. -/
theorem lsLoop_prints (fs : FileSys) (n : Nat) {s : Session} (hListing : Listing s.files fd)
    (hConsole : Console s.files) (hFd : fd ≠ 1) (hEntries : getNumDirEntries fs < 2 ^ 32 - 1)
    (hn : (listing fs (s.files fd).pos).length < n) (buf : Buffer) :
    ∃ d, lsLoop fs fd n buf s = some (0,
      { s.print ((listing fs (s.files fd).pos).flatMap (· ++ [nl])) with
        files := Function.update s.files fd d }) := by
  induction n generalizing s buf with
  | zero => omega
  | succ n ih =>
      obtain ⟨buf', hRead, hName⟩ := hListing.read fs buf
      rw [lsLoop, hRead]
      by_cases hEmpty : shown fs (s.files fd).pos = []
      · refine ⟨{ s.files fd with
          pos :=
            if (s.files fd).pos ≤ getNumDirEntries fs then u32 ((s.files fd).pos + 1)
            else (s.files fd).pos }, ?_⟩
        simp only [hEmpty, List.length_nil, if_pos, listing_of_empty hEmpty,
          List.flatMap_nil, Session.print_nil]
      · have hIndex : (s.files fd).pos ≤ getNumDirEntries fs := by
          by_contra hPast
          exact hEmpty (if_neg hPast)
        have hShort := shown_length fs (s.files fd).pos
        have hSome : (shown fs (s.files fd).pos).length ≠ 0 := by
          simpa using hEmpty
        have hLine : bytesOf (Function.update buf' (shown fs (s.files fd).pos).length nl)
            ((shown fs (s.files fd).pos).length + 1) = shown fs (s.files fd).pos ++ [nl] := by
          have hStart : bytesOf
              (Function.update buf' (shown fs (s.files fd).pos).length nl)
              (shown fs (s.files fd).pos).length = shown fs (s.files fd).pos :=
            (bytesOf_congr fun i hi => Function.update_of_ne (Nat.ne_of_lt hi) _ _).trans hName
          rw [bytesOf, List.range_succ, List.map_append]
          rw [bytesOf] at hStart
          rw [hStart]
          simp
        simp only [if_neg hSome, if_pos hIndex, u32_of_lt
          (show (s.files fd).pos + 1 < 2 ^ 32 by omega)]
        have hStill : Console (Function.update s.files fd
            { s.files fd with pos := (s.files fd).pos + 1 }) := hConsole.update hFd _
        rw [Session.write_console hStill _ (by omega), hLine]
        have hNames := listing_of_shown hEmpty
        obtain ⟨d, hRest⟩ := ih
          (s := { s.print (shown fs (s.files fd).pos ++ [nl]) with
            files := Function.update s.files fd
              { s.files fd with pos := (s.files fd).pos + 1 } })
          ⟨by simp [hListing.inUse], by simp [hListing.dir]⟩ hStill
          (by
            rw [hNames] at hn
            simpa using hn)
          (Function.update buf' (shown fs (s.files fd).pos).length nl)
        refine ⟨d, hRest.trans ?_⟩
        simp [Session.print, hNames]

/--
**What `ls` prints.**  On a console and with a free descriptor, `ls` ends with
status 0 and has printed the names of the entries, each on a line: from the
index that the descriptor was left with, and up to the first empty name, the
entry behind the last one included.
-/
theorem ls_prints {s : Session} {d : Dentry}
    (hFound : readDentryByName fs (text ".") = some d) (hType : d.ftype = 1)
    (hFree : getFreeFd s.files = some fd) (hConsole : Console s.files)
    (hEntries : getNumDirEntries fs < 2 ^ 32 - 1) (buf : Buffer) {n : Nat}
    (hn : getNumDirEntries fs + 1 < n) :
    ∃ s', ls fs n buf s = some (0, s') ∧ (∀ j, j ≠ fd → s'.files j = s.files j) ∧
      s'.printed = s.printed ++
        (listing fs (s.files fd).pos).flatMap (· ++ [nl]) := by
  have hOps : fileOpsOf d.ftype = some .dir := by rw [hType]; rfl
  have hFd := free_ne_console hFree
  have hPos : (openedDesc d .dir (s.files fd)).pos = (s.files fd).pos := by
    simp [openedDesc]
  have hLength := listing_length fs (s.files fd).pos
  obtain ⟨desc, hLoop⟩ := lsLoop_prints fs n
    (s := { s with
      files := Function.update s.files fd (openedDesc d .dir (s.files fd)) })
    (listing_opened d s.files) (hConsole.update hFd _) hFd hEntries
    (by
      simp only [Function.update_self, hPos]
      omega) buf
  have hLs : ls fs n buf s = lsLoop fs fd n buf { s with
      files := Function.update s.files fd (openedDesc d .dir (s.files fd)) } := by
    rw [ls]
    simp only [Session.openFile_some hFound hOps hFree]
  refine ⟨_, hLs.trans hLoop, ?_, ?_⟩
  · intro j hj
    simp [hj]
  · simp [Session.print, hPos]

/-- A new process lists the directory and its file. -/
theorem ls_prints_dotImage :
    ∃ s', ls dotImage 9 (fun _ => 0#8) ⟨freshFiles, []⟩ = some (0, s') ∧
      (∀ j, j ≠ 2 → s'.files j = freshFiles j) ∧
      s'.printed = [0x2e#8, 10#8, 0x61#8, 10#8] := by
  have hFound : readDentryByName dotImage (text ".") =
      some { fname := [0x2e#8], ftype := 1, inodeNum := 0 } := by
    rw [show text "." = [0x2e#8] by decide]
    exact dotImage_found
  obtain ⟨s', hRun, hOthers, hPrinted⟩ := ls_prints (s := ⟨freshFiles, []⟩)
    hFound rfl (show getFreeFd freshFiles = some 2 by decide) (by decide) (by decide +kernel)
    (fun _ => 0#8) (n := 9)
    (by decide +kernel)
  refine ⟨s', hRun, hOthers, hPrinted.trans ?_⟩
  decide +kernel

end Ls

end CompE.Userland
