import Apue.Base.Buffer
import Apue.Base.DirTree
import Apue.Base.Worklist

/-! # The search for a terminal

`ttyname` looks for the device and the inode of a descriptor among the files below `/dev`, one
directory after the other.  The directories still to be searched are in a list, to which each
directory adds its own.  The path name at hand is in one static array.  The memory for the list is
found.  An access outside the array gives no result.
-/

namespace Apue.Termios

open Apue.Base

/-! ## The code -/

/-- The members of `struct stat` that are looked at here. -/
structure Stat where
  stMode : Nat
  stDev : Nat
  stIno : Nat
  deriving DecidableEq, Repr

/-- `S_ISDIR(st_mode)`. -/
def isdir (st : Stat) : Bool := st.stMode &&& 0o170000 = 0o040000

/-- `S_ISCHR(st_mode)`. -/
def ischr (st : Stat) : Bool := st.stMode &&& 0o170000 = 0o020000

def posixPathMax : Nat := 256

/-- The static variables: the names in the list from `head` to `tail`, and the array for the path
name. -/
structure Search where
  devdirs : List Bytes
  pathname : Bytes
  deriving DecidableEq, Repr

/-- `strncpy(buf + i, src, n)`. -/
def strncpyIn (buf : Bytes) (i : Nat) (src : Bytes) (n : Nat) : Option Bytes :=
  if i + n ≤ buf.length then copyIn buf i ((cstr src).take n ++ List.replicate (n - strlen src)
    0) else none

/-- `buf[i]`. -/
def charAt (buf : Bytes) (i : Int) : Option UInt8 := if 0 ≤ i then buf[i.toNat]? else none

/-- The test for the dot entries in `add`. -/
def dotSuffix (dirname : Bytes) (len : Int) : Option Bool := do
  let last ← charAt dirname (len - 1)
  if last ≠ 46 then some false
  else do
    let before ← charAt dirname (len - 2)
    if before = slash then some true
    else if before ≠ 46 then some false
    else do
      let first ← charAt dirname (len - 3)
      some (first = slash)

/-- `add(pathname)`. -/
def add (s : Search) : Option Search := do
  let dirname ← cstrIn s.pathname
  let skip ← dotSuffix s.pathname (strlen dirname)
  if skip then some s
  else if strEq dirname (ascii "/dev/fd") then some s
  else some { s with devdirs := s.devdirs ++ [dirname] }

def cleanup (s : Search) : Search := { s with devdirs := [] }

def aliases : List Bytes := [ascii "/dev/stdin", ascii "/dev/stdout", ascii "/dev/stderr"]

section Code

variable (fs : FileSys Stat) (fdstat : Stat)

/-- The loop over the names of a directory in `searchdir`. -/
def searchNames (devlen : Nat) : List Bytes → Search → Option (Option Bytes × Search)
  | [], s => some (none, s)
  | dName :: rest, s => do
    let pathname ← strncpyIn s.pathname devlen dName (sizeT (posixPathMax - devlen))
    let s := { s with pathname := pathname }
    let path ← cstrIn s.pathname
    if path ∈ aliases then searchNames devlen rest s
    else match fs.stat path with
      | none => searchNames devlen rest s
      | some devstat =>
        if isdir devstat then do
          let s ← add s
          searchNames devlen rest s
        else if devstat.stIno = fdstat.stIno ∧ devstat.stDev = fdstat.stDev then some (some path, s)
        else searchNames devlen rest s

/-- `searchdir`; the pointer it returns is to `pathname`, which then holds the string given here. -/
def searchdir (dirname : Bytes) (s : Search) : Option (Option Bytes × Search) := do
  let pathname ← copyIn s.pathname 0 (cstr dirname ++ [0])
  match fs.opendir dirname with
  | none => some (none, { s with pathname := pathname })
  | some names => do
    let path ← cstrIn pathname
    let pathname ← copyIn pathname path.length [slash, 0]
    let path ← cstrIn pathname
    searchNames fs fdstat path.length names { s with pathname := pathname }

/-- The loop over the list in `ttyname`, from the element `k` on, with so many turns. -/
def searchList : Nat → Nat → Search → Option (Option Bytes × Search)
  | 0, _, _ => none
  | fuel + 1, k, s =>
    match s.devdirs[k]? with
    | none => some (none, s)
    | some dName => do
      let (rval, s) ← searchdir fs fdstat dName s
      if rval.isSome then some (rval, s) else searchList fuel (k + 1) s

end Code

/-- `ttyname`: what `isatty` and `fstat` say of the descriptor, and the path name that is
returned. -/
def ttyname (fs : FileSys Stat) (fuel : Nat) (isatty : Bool) (fdstat : Option Stat) (s : Search) :
    Option (Option Bytes × Search) :=
  match isatty, fdstat with
  | true, some fdstat =>
    if ischr fdstat = false then some (none, s)
    else do
      let (rval, s) ← searchdir fs fdstat (ascii "/dev") s
      let (rval, s) ← if rval.isNone then searchList fs fdstat fuel 0 s else some (rval, s)
      some (rval, cleanup s)
  | _, _ => some (none, s)

/-! ## What is searched for -/

section Spec

variable (fs : FileSys Stat) (fdstat : Stat)

/-- A name that makes a path name shorter than `_POSIX_PATH_MAX`; the dot entries are
directories. -/
def Fits (path name : Bytes) : Prop :=
  NulFree name ∧ slash ∉ name ∧ (entryPath path name).length < posixPathMax ∧
    (isDot name = true → ∀ st, fs.stat (entryPath path name) = some st → isdir st = true)

/-- The file is the terminal, and is neither below `/dev/fd` nor an alias nor below one. -/
def IsTerminal (path : Bytes) (st : Stat) : Prop :=
  st.stIno = fdstat.stIno ∧ st.stDev = fdstat.stDev ∧ (∀ top ∈ aliases, ¬Under top path) ∧
    ¬ascii "/dev/fd" ++ [slash] <+: path

/-- The terminal among the files of a directory itself. -/
def inDirectory (path : Bytes) (entries : List (Bytes × FileTree Stat)) : Option Bytes :=
  entries.findSome? fun entry =>
    match entry.2 with
    | .file st =>
      if entryPath path entry.1 ∉ aliases ∧ st.stIno = fdstat.stIno ∧ st.stDev = fdstat.stDev then
        some (entryPath path entry.1)
      else none
    | _ => none

/-- The directories that a directory adds to the list. -/
def subdirs (path : Bytes) (entries : List (Bytes × FileTree Stat)) :
    List (Bytes × FileTree Stat) :=
  (entries.map fun entry => (entryPath path entry.1, entry.2)).filter fun item =>
    item.2.isDirectory && item.1 ∉ ascii "/dev/fd" :: aliases

/-- One turn of the search on the trees at the path names in the list. -/
def visit : Bytes × FileTree Stat → Option Bytes × List (Bytes × FileTree Stat)
  | (path, .dir _ entries) => (inDirectory fdstat path entries.toList, subdirs path entries.toList)
  | _ => (none, [])

/-- What holds of the path names in the list: a directory is there, outside those that are
skipped. -/
structure Listed (item : Bytes × FileTree Stat) : Prop where
  shown : item.2.ShownAt fs isdir (fun path => path) (Fits fs) item.1
  isDirectory : item.2.isDirectory = true
  apart : ∀ top ∈ ascii "/dev/fd" :: aliases, ¬Under top item.1
  short : item.1.length < posixPathMax
  clean : NulFree item.1

/-- A terminal that is searched for at or below the item. -/
def Has (item : Bytes × FileTree Stat) (found : Bytes) : Prop :=
  ∃ st, (found, st) ∈ item.2.files item.1 ∧ IsTerminal fdstat found st

end Spec

/-! ## The abstract search -/

section Abstract

variable {fs : FileSys Stat} {fdstat : Stat} {path : Bytes} {st : Stat} {entries : Entries Stat}

theorem Listed.entry (listed : Listed fs (path, .dir st entries)) {name : Bytes}
    {node : FileTree Stat}
    (member : (name, node) ∈ entries.toList) :
    Fits fs path name ∧ isDot name = false ∧
      node.ShownAt fs isdir (fun path => path) (Fits fs) (entryPath path name) := by
  have shown := listed.shown
  simp only [FileTree.ShownAt] at shown
  obtain ⟨-, -, inside, names, -, sameNames, fit⟩ := shown
  have isName : name ∈ entries.names := by
    rw [entries.names_eq]
    exact List.mem_map.mpr ⟨(name, node), member, rfl⟩
  rw [← sameNames, List.mem_filter] at isName
  exact ⟨fit name isName.1, by simpa using isName.2, (entries.shownIn_iff path).mp inside (name, node) member⟩

theorem mem_subdirs {item : Bytes × FileTree Stat} : item ∈ subdirs path entries.toList ↔
    ∃ name, (name, item.2) ∈ entries.toList ∧ item.1 = entryPath path name ∧
      item.2.isDirectory = true ∧
      item.1 ∉ ascii "/dev/fd" :: aliases := by
  simp only [subdirs, List.mem_filter, List.mem_map, Bool.and_eq_true, decide_eq_true_eq]
  constructor
  · rintro ⟨⟨entry, member, rfl⟩, isDirectory, apart⟩
    exact ⟨entry.1, member, rfl, isDirectory, apart⟩
  · rintro ⟨name, member, isPath, isDirectory, apart⟩
    exact ⟨⟨(name, item.2), member, Prod.ext isPath.symm rfl⟩, isDirectory, apart⟩

/-- What a directory adds to the list is listed. -/
theorem Listed.subdir (listed : Listed fs (path, .dir st entries)) {item : Bytes × FileTree Stat}
    (member : item ∈ subdirs path entries.toList) : Listed fs item := by
  obtain ⟨name, inEntries, isPath, isDirectory, notSkipped⟩ := mem_subdirs.mp member
  obtain ⟨⟨clean, noSlash, short, _⟩, _, shown⟩ := listed.entry inEntries
  refine ⟨?_, isDirectory, ?_, ?_, ?_⟩ <;> rw [isPath]
  · exact shown
  · intro top isTop below
    obtain rfl | below := (under_entryPath noSlash).mp below
    · exact notSkipped (isPath ▸ isTop)
    · exact listed.apart top isTop below
  · exact short
  · exact nulFree_entryPath listed.clean clean

theorem inDirectory_eq_some {found : Bytes}
    (isFound : inDirectory fdstat path entries.toList = some found) :
    ∃ name st, (name, .file st) ∈ entries.toList ∧ found = entryPath path name ∧ found ∉ aliases ∧
      st.stIno = fdstat.stIno ∧ st.stDev = fdstat.stDev := by
  obtain ⟨⟨name, node⟩, member, isSome⟩ := List.exists_of_findSome?_eq_some isFound
  cases node with
  | file st =>
    dsimp only at isSome
    split at isSome
    next same =>
      obtain rfl := Option.some.inj isSome
      exact ⟨name, st, member, rfl, same⟩
    next => cases isSome
  | unseen => cases isSome
  | closed => cases isSome
  | dir => cases isSome

theorem mem_files {found : Bytes} {st : Stat} : (found, st) ∈ entries.files path ↔
    ∃ name node, (name, node) ∈ entries.toList ∧
      (found, st) ∈ node.files (entryPath path name) := by
  rw [entries.files_eq, List.mem_flatMap]
  constructor
  · rintro ⟨⟨name, node⟩, member, inNode⟩
    exact ⟨name, node, member, inNode⟩
  · rintro ⟨name, node, member, inNode⟩
    exact ⟨(name, node), member, inNode⟩

theorem has_found (listed : Listed fs (path, .dir st entries)) {found : Bytes}
    (isFound : inDirectory fdstat path entries.toList = some found) :
    Has fdstat (path, .dir st entries) found := by
  obtain ⟨name, st', member, rfl, notAlias, sameIno, sameDev⟩ := inDirectory_eq_some isFound
  obtain ⟨⟨_, noSlash, _⟩, _⟩ := listed.entry member
  refine ⟨st', mem_files.mpr ⟨name, .file st', member, by simp [FileTree.files]⟩, sameIno,
    sameDev, ?_, ?_⟩
  · intro top isAlias under
    obtain rfl | above := (under_entryPath noSlash).mp under
    · exact notAlias isAlias
    · exact listed.apart top (List.mem_cons_of_mem _ isAlias) above
  · intro below
    exact listed.apart _ List.mem_cons_self ((below_entryPath noSlash).mp below)

/-- Without a terminal in the directory itself, what is to be found below it is below a directory
that is added. -/
theorem has_below {found : Bytes}
    (notFound : inDirectory fdstat path entries.toList = none)
    (has : Has fdstat (path, .dir st entries) found) :
    ∃ item ∈ subdirs path entries.toList, Has fdstat item found := by
  obtain ⟨st', inFiles, terminal⟩ := has
  obtain ⟨name, node, member, inNode⟩ := mem_files.mp inFiles
  obtain ⟨sameIno, sameDev, notAlias, notFd⟩ := terminal
  have added : node.isDirectory = true → entryPath path name ++ [slash] <+: found →
      ∃ item ∈ subdirs path entries.toList, Has fdstat item found := by
    intro isDirectory below
    refine ⟨(entryPath path name, node), mem_subdirs.mpr ⟨name, member, rfl, isDirectory, ?_⟩, st',
      inNode, sameIno, sameDev,
      notAlias, notFd⟩
    intro skipped
    obtain isFd | isAlias := List.mem_cons.mp skipped
    · exact notFd (isFd ▸ below)
    · exact notAlias _ isAlias (Or.inr below)
  cases node with
  | unseen => simp [FileTree.files] at inNode
  | closed st'' => simp [FileTree.files] at inNode
  | dir st'' entries' => exact added rfl (entries'.files_below _ _ inNode)
  | file st'' =>
    -- a file of the directory itself would have been found
    simp only [FileTree.files, List.mem_singleton, Prod.mk.injEq] at inNode
    obtain ⟨rfl, rfl⟩ := inNode
    have none' := List.findSome?_eq_none_iff.mp notFound (name, .file st') member
    have notListed : entryPath path name ∉ aliases := fun isAlias => notAlias _ isAlias (Or.inl rfl)
    simp [notListed, sameIno, sameDev] at none'

theorem finds_visit (fdstat : Stat) : Finds (visit fdstat) (Listed fs) (Has fdstat) where
  kept := by
    rintro ⟨path, node⟩ listed notFound item member
    cases node with
    | dir st entries => exact listed.subdir member
    | _ => cases member
  sound := by
    rintro ⟨path, node⟩ found listed isFound
    cases node with
    | dir st entries => exact has_found listed isFound
    | _ => cases isFound
  below := by
    rintro ⟨path, node⟩ item found listed notFound member ⟨st', inFiles, terminal⟩
    cases node with
    | dir st entries =>
      obtain ⟨name, inEntries, isPath, _⟩ := mem_subdirs.mp member
      exact ⟨st', mem_files.mpr ⟨name, item.2, inEntries, isPath ▸ inFiles⟩, terminal⟩
    | _ => cases member
  complete := by
    rintro ⟨path, node⟩ found listed notFound has
    cases node with
    | dir st entries => exact has_below notFound has
    | _ =>
      obtain ⟨st', inFiles, _⟩ := has
      have isDirectory := listed.isDirectory
      simp_all [FileTree.files, FileTree.isDirectory]

theorem dirs_subdirs (path : Bytes) (entries : List (Bytes × FileTree Stat)) :
    ((subdirs path entries).map (·.2.dirs)).sum ≤ (entries.map (·.2.dirs)).sum := by
  induction entries with
  | nil => simp [subdirs]
  | cons entry entries inductionHypothesis =>
    simp only [subdirs, List.map_cons, List.filter_cons, List.sum_cons] at inductionHypothesis ⊢
    split
    · rw [List.map_cons, List.sum_cons]
      exact Nat.add_le_add_left inductionHypothesis _
    · omega

theorem dirs_visit {item : Bytes × FileTree Stat} (isDirectory : item.2.isDirectory = true) :
    ((visit fdstat item).2.map (·.2.dirs)).sum < item.2.dirs := by
  obtain ⟨path, node⟩ := item
  cases node with
  | dir st entries =>
    have smaller := dirs_subdirs path entries.toList
    rw [← entries.dirs_eq] at smaller
    simp only [visit, FileTree.dirs]
    omega
  | closed st => simp [visit, FileTree.dirs]
  | unseen => cases isDirectory
  | file => cases isDirectory

/-- The search below a directory ends, and finds the terminal just when there is one. -/
theorem search_visit (fdstat : Stat) {item : Bytes × FileTree Stat} (listed : Listed fs item)
    {fuel : Nat}
    (enough : item.2.dirs < fuel) :
    ∃ rval, search (visit fdstat) fuel [item] = some rval ∧
      (∀ found, rval = some found → Has fdstat item found) ∧
      (rval = none → ∀ found, ¬Has fdstat item found) := by
  have inv : ∀ item' ∈ [item], Listed fs item' := by simpa using listed
  obtain ⟨rval, run⟩ := search_ends (finds_visit fdstat) (fun item => item.2.dirs)
    (fun item listed _ => dirs_visit listed.isDirectory) fuel [item] inv (by simpa using enough)
  obtain ⟨isFound, notFound⟩ := search_exact (finds_visit fdstat) fuel [item] inv run
  exact ⟨rval, run, by simpa using isFound, by simpa using notFound⟩

end Abstract

/-! ## The code searches like that -/

section Code

variable {fs : FileSys Stat} {fdstat : Stat} {path name : Bytes}

theorem isDot_iff (name : Bytes) : isDot name = true ↔ name = [46] ∨ name = [46, 46] := by
  simp only [isDot, Bool.or_eq_true, decide_eq_true_eq]
  rfl

/-- The characters of a string from its end. -/
theorem charAt_back (text rest : Bytes) (k : Nat) :
    charAt (text ++ rest) ((text.length : Nat) - ((k + 1 : Nat) : Int)) = text.reverse[k]? := by
  by_cases inside : k < text.length
  · have isPlace : ((text.length : Nat) - ((k + 1 : Nat) : Int)).toNat = text.length - 1 - k := by
      omega
    rw [charAt, if_pos (by omega), isPlace, List.getElem?_append_left (by omega),
      List.getElem?_reverse inside]
  · rw [charAt, if_neg (by omega), List.getElem?_eq_none (by simp; omega)]

/-- The test in `add` finds the dot entries. -/
theorem dotSuffix_eq (rest : Bytes) (noSlash : slash ∉ name) :
    dotSuffix (entryPath path name ++ rest) ((entryPath path name).length : Nat) =
      some (isDot name) := by
  have first := charAt_back (entryPath path name) rest 0
  have second := charAt_back (entryPath path name) rest 1
  have third := charAt_back (entryPath path name) rest 2
  have backwards : (entryPath path name).reverse = name.reverse ++ slash :: path.reverse := by
    simp [entryPath]
  have isDot_eq : isDot name = decide (name.reverse = [46] ∨ name.reverse = [46, 46]) := by
    rw [Bool.eq_iff_iff, isDot_iff, decide_eq_true_eq, List.reverse_eq_iff, List.reverse_eq_iff]
    rfl
  rw [← List.mem_reverse] at noSlash
  rw [backwards] at first second third
  simp only [Nat.zero_add, Nat.reduceAdd, Nat.cast_ofNat, Nat.cast_one] at first second third
  rw [dotSuffix, isDot_eq, first, second, third]
  match name.reverse, noSlash with
  | [], _ => rfl
  | [last], _ => by_cases dot : last = 46 <;> simp [dot]
  | [last, before], noSlash =>
    simp only [List.mem_cons, not_or] at noSlash
    by_cases dot : last = 46 <;> by_cases dot' :
      before = 46 <;> simp [dot, dot', Ne.symm noSlash.2.1]
  | last :: before :: more :: _, noSlash =>
    simp only [List.mem_cons, not_or] at noSlash
    by_cases dot : last = 46 <;> by_cases dot' :
      before = 46 <;> simp [dot, dot', Ne.symm noSlash.2.1, Ne.symm noSlash.2.2.1]
    decide

/-- What `strncpy` leaves behind the directory and its slash. -/
theorem strncpyIn_eq {pathname : Bytes} (size : pathname.length = posixPathMax + 1)
    (front : path ++ [slash] <+: pathname)
    (clean : NulFree name) (short : (entryPath path name).length < posixPathMax) :
    ∃ pathname', strncpyIn pathname (path.length + 1) name
      (sizeT (posixPathMax - (path.length + 1 : Nat))) = some pathname' ∧
      entryPath path name ++ [0] <+: pathname' ∧ pathname'.length = posixPathMax + 1 := by
  have lengths : (entryPath path name).length = path.length + 1 + name.length := by
    simp [entryPath]; omega
  rw [lengths] at short
  obtain ⟨more, isCount⟩ : ∃ more, posixPathMax = path.length + 1 + (name.length + 1 + more) :=
    ⟨posixPathMax - (path.length + 1) - (name.length + 1), by omega⟩
  have isSize : sizeT (posixPathMax - (path.length + 1 : Nat)) = name.length + 1 + more := by
    have difference : (posixPathMax : Int) - (path.length + 1 : Nat) =
      ((name.length + 1 + more : Nat) : Int) := by omega
    have small : posixPathMax < 2 ^ 64 := by decide
    rw [difference, sizeT_natCast (by omega)]
  have padded : (cstr name).take (name.length + 1 + more) ++
      List.replicate (name.length + 1 + more - strlen name) 0 =
      name ++ [0] ++ List.replicate more 0 := by
    have zeros : name.length + 1 + more - name.length = more + 1 := by omega
    rw [cstr_of_nulFree clean, strlen_of_nulFree clean, List.take_of_length_le (by omega), zeros,
      List.replicate_succ]
    simp
  have behind : (path ++ [slash]).length = path.length + 1 := by simp
  have room : (path ++ [slash]).length + (name ++ [0] ++ List.replicate more (0 : UInt8)).length ≤
      pathname.length := by
    simp only [behind, size, List.length_append, List.length_singleton, List.length_replicate]
    omega
  obtain ⟨pathname', copied, front', size'⟩ := copyIn_behind front room
  refine ⟨pathname', ?_, List.IsPrefix.trans ⟨List.replicate more 0, by simp [entryPath]⟩ front',
    size'.trans size⟩
  rw [strncpyIn, isSize, if_pos (by omega), padded, ← behind]
  exact copied

/-- The array holds the path name of a directory and its slash. -/
structure Held (s : Search) (path : Bytes) : Prop where
  size : s.pathname.length = posixPathMax + 1
  front : path ++ [slash] <+: s.pathname

/-- `add` puts the directory into the list, unless it is one that is skipped. -/
theorem add_eq {s : Search} (front : entryPath path name ++ [0] <+: s.pathname)
    (clean : NulFree path) (clean' : NulFree name)
    (noSlash : slash ∉ name) :
    add s = some (if isDot name = true ∨ entryPath path name = ascii "/dev/fd" then s
      else { s with devdirs := s.devdirs ++ [entryPath path name] }) := by
  have cleanPath := nulFree_entryPath clean clean'
  obtain ⟨rest, isArray⟩ := front
  have isString : cstrIn s.pathname = some (entryPath path name) :=
    cstrIn_eq ⟨rest, isArray⟩ cleanPath
  have test : dotSuffix s.pathname (strlen (entryPath path name)) = some (isDot name) := by
    rw [← isArray, strlen_of_nulFree cleanPath, List.append_assoc]
    exact dotSuffix_eq _ noSlash
  have isFd : strEq (entryPath path name) (ascii "/dev/fd") = decide (entryPath path name = ascii "/dev/fd") := by
    rw [strEq, cstr_of_nulFree cleanPath]
    rfl
  rw [add, isString, Option.bind_eq_bind, Option.bind_some, test, Option.bind_eq_bind,
    Option.bind_some, isFd]
  cases isDot name <;> by_cases fd : entryPath path name = ascii "/dev/fd" <;> simp [fd]

theorem inDirectory_directory {node : FileTree Stat} (entries : List (Bytes × FileTree Stat))
    (isDirectory : node.isDirectory = true) :
    inDirectory fdstat path ((name, node) :: entries) = inDirectory fdstat path entries := by
  cases node with
  | unseen => cases isDirectory
  | file => cases isDirectory
  | closed => rfl
  | dir => rfl

theorem inDirectory_alias {node : FileTree Stat} (entries : List (Bytes × FileTree Stat))
    (isAlias : entryPath path name ∈ aliases) :
    inDirectory fdstat path ((name, node) :: entries) = inDirectory fdstat path entries := by
  cases node <;> simp [inDirectory, isAlias]

theorem subdirs_skipped {node : FileTree Stat} (entries : List (Bytes × FileTree Stat))
    (skipped : entryPath path name ∈ ascii "/dev/fd" :: aliases) :
    subdirs path ((name, node) :: entries) = subdirs path entries := by
  simp only [subdirs, List.map_cons, List.filter_cons]
  rw [if_neg (by simp [skipped])]

theorem subdirs_added {node : FileTree Stat} (entries : List (Bytes × FileTree Stat))
    (isDirectory : node.isDirectory = true)
    (notSkipped : entryPath path name ∉ ascii "/dev/fd" :: aliases) :
    subdirs path ((name, node) :: entries) = (entryPath path name, node) :: subdirs path
      entries := by
  simp only [subdirs, List.map_cons, List.filter_cons]
  rw [if_pos (by simpa [isDirectory] using notSkipped)]

/-- The loop over the names of a directory looks at its entries in their order, and adds the
directories among them. -/
theorem searchNames_eq (fdstat : Stat) (names : List Bytes) (entries : List (Bytes × FileTree Stat))
    {s : Search}
    (held : Held s path)
    (clean : NulFree path) (sameNames : names.filter (!isDot ·) = entries.map (·.1))
    (fit : ∀ name ∈ names, Fits fs path name)
    (shown : ∀ entry ∈ entries, entry.2.ShownAt fs isdir (fun path => path) (Fits fs)
    (entryPath path entry.1)) :
    ∃ s', searchNames fs fdstat (path.length + 1) names s =
      some (inDirectory fdstat path entries, s') ∧
      s'.pathname.length = posixPathMax + 1 ∧
      (inDirectory fdstat path entries = none →
        s'.devdirs = s.devdirs ++ (subdirs path entries).map (·.1)) := by
  induction names generalizing entries s with
  | nil =>
    obtain rfl : entries = [] := by simpa using sameNames.symm
    exact ⟨s, rfl, held.size, fun _ => by simp [subdirs]⟩
  | cons dName rest inductionHypothesis =>
    obtain ⟨clean', noSlash, short, dotDirectory⟩ := fit dName List.mem_cons_self
    have fit' : ∀ name ∈ rest, Fits fs path name :=
      fun name member => fit name (List.mem_cons_of_mem _ member)
    obtain ⟨pathname, copied, front, size⟩ := strncpyIn_eq held.size held.front clean' short
    have isPath := cstrIn_eq front (nulFree_entryPath clean clean')
    have held' : ∀ devdirs, Held ⟨devdirs, pathname⟩ path := fun devdirs =>
      ⟨size, List.IsPrefix.trans ⟨dName ++ [0], by simp [entryPath]⟩ front⟩
    have unfolded : searchNames fs fdstat (path.length + 1) (dName :: rest) s =
        if entryPath path dName ∈ aliases then searchNames fs fdstat (path.length + 1) rest
          ⟨s.devdirs, pathname⟩
        else match fs.stat (entryPath path dName) with
          | none => searchNames fs fdstat (path.length + 1) rest ⟨s.devdirs, pathname⟩
          | some devstat =>
            if isdir devstat then (add ⟨s.devdirs, pathname⟩).bind (searchNames fs fdstat
              (path.length + 1) rest)
            else if devstat.stIno = fdstat.stIno ∧ devstat.stDev = fdstat.stDev then
              some (some (entryPath path dName), ⟨s.devdirs, pathname⟩)
            else searchNames fs fdstat (path.length + 1) rest ⟨s.devdirs, pathname⟩ := by
      simp only [searchNames, copied, Option.bind_eq_bind, Option.bind_some, isPath]
    rw [unfolded]
    cases dot : isDot dName with
    | true =>
      -- a dot entry is a directory and not added
      rw [List.filter_cons, dot, Bool.not_true, if_neg (by simp)] at sameNames
      have later := inductionHypothesis entries (held' s.devdirs) sameNames fit' shown
      split
      · exact later
      · cases seen : fs.stat (entryPath path dName) with
        | none => exact later
        | some devstat =>
          have notAdded := add_eq (s := ⟨s.devdirs, pathname⟩) front clean clean' noSlash
          rw [if_pos (Or.inl dot)] at notAdded
          simp only [dotDirectory dot devstat seen, if_true, notAdded, Option.bind_some]
          exact later
    | false =>
      rw [List.filter_cons, dot, Bool.not_false, if_pos rfl] at sameNames
      cases entries with
      | nil => cases sameNames
      | cons entry entries =>
        obtain ⟨name, node⟩ := entry
        obtain ⟨rfl, sameRest⟩ := List.cons.inj sameNames
        have later := fun devdirs => inductionHypothesis entries (held' devdirs) sameRest fit'
            fun entry member =>
          shown entry (List.mem_cons_of_mem _ member)
        have here := shown (dName, node) List.mem_cons_self
        by_cases isAlias : entryPath path dName ∈ aliases
        · -- an alias is neither looked at nor added
          rw [if_pos isAlias, inDirectory_alias entries isAlias,
            subdirs_skipped entries (List.mem_cons_of_mem _ isAlias)]
          exact later s.devdirs
        rw [if_neg isAlias]
        cases isDirectory : node.isDirectory with
        | true =>
          obtain ⟨st, seen, isDir⟩ := here.seen isDirectory
          have isAdded := add_eq (s := ⟨s.devdirs, pathname⟩) front clean clean' noSlash
          simp only [dot, Bool.false_eq_true, false_or] at isAdded
          rw [inDirectory_directory entries isDirectory]
          simp only [seen, isDir, if_true, isAdded, Option.bind_some]
          by_cases isFd : entryPath path dName = ascii "/dev/fd"
          · rw [if_pos isFd, subdirs_skipped entries (isFd ▸ List.mem_cons_self)]
            exact later s.devdirs
          · rw [if_neg isFd, subdirs_added entries isDirectory (by simp [isFd, isAlias])]
            obtain ⟨s', run, size', added⟩ := later (s.devdirs ++ [entryPath path dName])
            exact ⟨s', run, size',
              fun notFound => by rw [added notFound, List.map_cons, List.append_assoc]; rfl⟩
        | false =>
          cases node with
          | closed => cases isDirectory
          | dir => cases isDirectory
          | unseen =>
            simp only [FileTree.ShownAt] at here
            simp only [here]
            exact later s.devdirs
          | file st =>
            simp only [FileTree.ShownAt] at here
            simp only [here, Bool.false_eq_true, if_false]
            split
            next same =>
              have isFound : inDirectory fdstat path ((dName, .file st) :: entries) =
                  some (entryPath path dName) := by
                simp [inDirectory, isAlias, same]
              rw [isFound]
              exact ⟨⟨s.devdirs, pathname⟩, rfl, size, fun absent => by cases absent⟩
            next different =>
              have notFound : inDirectory fdstat path ((dName, .file st) :: entries) =
                  inDirectory fdstat path entries := by
                simp [inDirectory, different]
              rw [notFound]
              exact later s.devdirs

theorem searchdir_eq (fdstat : Stat) {item : Bytes × FileTree Stat} (listed : Listed fs item)
    {s : Search}
    (size : s.pathname.length = posixPathMax + 1) :
    ∃ s', searchdir fs fdstat item.1 s = some ((visit fdstat item).1, s') ∧
      s'.pathname.length = posixPathMax + 1 ∧
      ((visit fdstat item).1 = none →
        s'.devdirs = s.devdirs ++ (visit fdstat item).2.map (·.1)) := by
  obtain ⟨path, node⟩ := item
  have short : path.length < posixPathMax := listed.short
  have clean : NulFree path := listed.clean
  have room : ([] : Bytes).length + (path ++ [0]).length ≤ s.pathname.length := by
    rw [size, List.length_append, List.length_singleton, List.length_nil]
    omega
  obtain ⟨pathname, copied, front, size'⟩ := copyIn_behind List.nil_prefix room
  rw [List.nil_append] at front
  rw [List.length_nil] at copied
  have shown := listed.shown
  cases node with
  | unseen => cases listed.isDirectory
  | file => cases listed.isDirectory
  | closed st =>
    simp only [FileTree.ShownAt] at shown
    refine ⟨{ s with pathname := pathname }, ?_, size'.trans size, fun _ => by simp [visit]⟩
    simp only [searchdir, cstr_of_nulFree clean, copied, Option.bind_eq_bind,
      Option.bind_some, shown.2.2]
    rfl
  | dir st entries =>
    simp only [FileTree.ShownAt] at shown
    obtain ⟨-, -, inside, names, opened, sameNames, fit⟩ := shown
    -- the slash behind the name of the directory
    have roomSlash : path.length + [slash, 0].length ≤ pathname.length := by
      rw [size', size, List.length_cons, List.length_singleton]
      omega
    obtain ⟨pathname', copied', front', size''⟩ :=
      copyIn_behind ((List.prefix_append path [0]).trans front) roomSlash
    have split : path ++ [slash, 0] = path ++ [slash] ++ [0] := by simp
    rw [split] at front'
    have cleanSlash : NulFree (path ++ [slash]) := by simpa [NulFree, slash] using clean
    have held : Held ⟨s.devdirs, pathname'⟩ path :=
      ⟨size''.trans (size'.trans size), (List.prefix_append _ _).trans front'⟩
    rw [entries.names_eq] at sameNames
    obtain ⟨s', run, sizeEnd, added⟩ :=
      searchNames_eq fdstat names entries.toList held clean sameNames fit
        ((entries.shownIn_iff path).mp inside)
    refine ⟨s', ?_, sizeEnd, added⟩
    simp only [searchdir, cstr_of_nulFree clean, copied, Option.bind_eq_bind, Option.bind_some,
      opened, cstrIn_eq front clean,
      copied', cstrIn_eq front' cleanSlash, List.length_append, List.length_singleton, run]
    rfl

/-- The loop over the list is the search from its element `k` on. -/
theorem searchList_eq (fuel k : Nat) (items : List (Bytes × FileTree Stat)) {s : Search}
    {rval : Option Bytes}
    (size : s.pathname.length = posixPathMax + 1) (same : s.devdirs.drop k = items.map (·.1))
    (listed : ∀ item ∈ items, Listed fs item) (run : search (visit fdstat) fuel items = some rval) :
    ∃ s', searchList fs fdstat fuel k s = some (rval, s') ∧
      s'.pathname.length = posixPathMax + 1 := by
  induction fuel generalizing k items s with
  | zero => cases run
  | succ fuel inductionHypothesis =>
    cases items with
    | nil =>
      obtain rfl : none = rval := by simpa [search] using run
      have atEnd : s.devdirs[k]? = none := by
        rw [List.getElem?_eq_none_iff]
        simpa using same
      exact ⟨s, by rw [searchList, atEnd], size⟩
    | cons item rest =>
      have here : s.devdirs[k]? = some item.1 := by
        have head := congrArg List.head? same
        simpa [List.head?_drop] using head
      have behind : s.devdirs.drop (k + 1) = rest.map (·.1) := by
        have tail := congrArg List.tail same
        simpa [List.tail_drop] using tail
      obtain ⟨s', searched, size', added⟩ :=
        searchdir_eq fdstat (listed item List.mem_cons_self) size
      have inside : k + 1 ≤ s.devdirs.length := (List.getElem?_eq_some_iff.mp here).1
      cases visited : visit fdstat item with
      | mk found more =>
        rw [visited] at searched added
        simp only [search, visited] at run
        simp only [searchList, here, searched, Option.bind_eq_bind, Option.bind_some]
        cases found with
        | some found =>
          obtain rfl : some found = rval := by simpa using run
          exact ⟨s', rfl, size'⟩
        | none =>
          have same' : s'.devdirs.drop (k + 1) = (rest ++ more).map (·.1) := by
            rw [added rfl, List.drop_append_of_le_length inside, behind, List.map_append]
          refine inductionHypothesis (k + 1) (rest ++ more) size' same' ?_ run
          intro item' member
          obtain old | new := List.mem_append.mp member
          · exact listed item' (List.mem_cons_of_mem _ old)
          · exact (finds_visit fdstat).kept item (listed item List.mem_cons_self)
              (by rw [visited]) item' (by rw [visited]; exact new)

theorem listed_dev {node : FileTree Stat} (shown : node.ShownAt fs isdir (fun path => path) (Fits fs) (ascii "/dev"))
    (isDirectory : node.isDirectory = true) : Listed fs (ascii "/dev", node) where
  shown := shown
  isDirectory := isDirectory
  apart := show ∀ top ∈ ascii "/dev/fd" :: aliases, ¬Under top (ascii "/dev") by decide
  short := show (ascii "/dev").length < posixPathMax by decide
  clean := show NulFree (ascii "/dev") by decide

/-- `ttyname` is the search from `/dev` on, and leaves the list empty. -/
theorem ttyname_eq (fuel : Nat) {node : FileTree Stat} (listed : Listed fs (ascii "/dev", node)) (terminal : ischr fdstat = true)
    {s : Search} (empty : s.devdirs = []) (size : s.pathname.length = posixPathMax + 1)
    {rval : Option Bytes}
    (run : search (visit fdstat) (fuel + 1) [(ascii "/dev", node)] = some rval) :
    ∃ s', ttyname fs fuel true (some fdstat) s = some (rval, s') ∧ s'.devdirs = [] ∧
      s'.pathname.length = posixPathMax + 1 := by
  obtain ⟨s', searched, size', added⟩ := searchdir_eq fdstat listed size
  cases visited : visit fdstat (ascii "/dev", node) with
  | mk found more =>
    rw [visited] at searched added
    simp only [search, visited] at run
    simp only [ttyname, terminal, Bool.true_eq_false, if_false, searched, Option.bind_eq_bind,
      Option.bind_some]
    cases found with
    | some found =>
      obtain rfl : some found = rval := by simpa using run
      exact ⟨cleanup s', rfl, rfl, size'⟩
    | none =>
      have same : s'.devdirs.drop 0 = more.map (·.1) := by rw [added rfl, empty]; rfl
      have listed' : ∀ item ∈ more, Listed fs item := fun item member =>
        (finds_visit fdstat).kept (ascii "/dev", node) listed (by rw [visited]) item (by rw [visited]; exact member)
      obtain ⟨s'', run', size''⟩ := searchList_eq fuel 0 more size' same listed' run
      refine ⟨cleanup s'', ?_, rfl, size''⟩
      simp only [Option.isNone_none, if_true, run', Option.bind_some]

/-- `ttyname` ends, leaves the list empty, and finds the terminal just when it is there. -/
theorem ttyname_finds {node : FileTree Stat} (shown : node.ShownAt fs isdir (fun path => path) (Fits fs) (ascii "/dev"))
    (isDirectory : node.isDirectory = true) (terminal : ischr fdstat = true) {s : Search}
    (empty : s.devdirs = [])
    (size : s.pathname.length = posixPathMax + 1) {fuel : Nat} (enough : node.dirs ≤ fuel) :
    ∃ rval s', ttyname fs fuel true (some fdstat) s = some (rval, s') ∧ s'.devdirs = [] ∧
      s'.pathname.length = posixPathMax + 1 ∧
      (rval.isSome ↔ ∃ path st, (path, st) ∈ node.files (ascii "/dev") ∧ IsTerminal fdstat path st) ∧
      ∀ path, rval = some path → ∃ st, (path, st) ∈ node.files (ascii "/dev") ∧ IsTerminal fdstat path st := by
  have listed := listed_dev shown isDirectory
  obtain ⟨rval, run, isFound, notFound⟩ := search_visit fdstat listed (Nat.lt_succ_of_le enough)
  obtain ⟨s', run', empty', size'⟩ := ttyname_eq fuel listed terminal empty size run
  refine ⟨rval, s', run', empty', size', ?_, isFound⟩
  cases rval with
  | some found =>
    obtain ⟨st, inFiles, isTerminal⟩ := isFound found rfl
    simpa using ⟨found, st, inFiles, isTerminal⟩
  | none =>
    simp only [Option.isSome_none, Bool.false_eq_true, false_iff]
    rintro ⟨path, st, inFiles, isTerminal⟩
    exact notFound rfl path ⟨st, inFiles, isTerminal⟩

end Code

/-! ## A directory with one terminal -/

/-- A directory with a terminal below `/dev`, under the given name. -/
def oneDir (name : Bytes) : FileSys Stat where
  stat path :=
    if path = entryPath (entryPath (ascii "/dev") name) (ascii "0") then some ⟨0o020620, 5, 3⟩
    else if path = entryPath (ascii "/dev") name then some ⟨0o040755, 5, 1⟩
    else some ⟨0o040755, 5, 2⟩
  opendir path :=
    if path = ascii "/dev" then some [ascii ".", ascii "..", name]
    else if path = entryPath (ascii "/dev") name then some [ascii ".", ascii "..", ascii "0"]
    else none

def oneDirTree (name : Bytes) : FileTree Stat :=
  .dir ⟨0o040755, 5, 2⟩ (.cons name (.dir ⟨0o040755, 5, 1⟩ (.cons (ascii "0") (.file ⟨0o020620, 5, 3⟩) .nil)) .nil)

theorem shown_oneDir {name : Bytes} (isName : name = ascii "pts" ∨ name = ascii "stdin") :
    (oneDirTree name).ShownAt (oneDir name) isdir (fun path => path) (Fits (oneDir name)) (ascii "/dev") := by
  have fits : ∀ path (names : List Bytes), (∀ name' ∈ names, NulFree name' ∧ slash ∉ name' ∧
      (entryPath path name').length < posixPathMax ∧
      (isDot name' = true → ((oneDir name).stat (entryPath path name')).map isdir = some true)) →
      ∀ name' ∈ names, Fits (oneDir name) path name' := by
    intro path names each name' member
    obtain ⟨clean, noSlash, short, dot⟩ := each name' member
    refine ⟨clean, noSlash, short, fun isDot st seen => ?_⟩
    have isDir := dot isDot
    rw [seen] at isDir
    simpa using isDir
  simp only [oneDirTree, FileTree.ShownAt, Entries.ShownIn]
  obtain rfl | rfl := isName
  all_goals
    refine ⟨by decide, by decide, ⟨⟨by decide, by decide, ⟨⟨by decide, by decide⟩, trivial⟩, _, rfl, by decide, ?_⟩, trivial⟩,
      _, rfl, by decide, ?_⟩
    · exact fits _ _ (by decide)
    · exact fits _ _ (by decide)

/-- The terminal in `/dev/pts`. -/
theorem ttyname_finds_pts : ∃ rval s',
    ttyname (oneDir (ascii "pts")) 2 true (some ⟨0o020620, 5, 3⟩) ⟨[], List.replicate 257 0⟩ = some (rval, s') ∧ s'.devdirs = [] ∧
      s'.pathname.length = posixPathMax + 1 ∧
      (rval.isSome ↔ ∃ path st, (path, st) ∈ (oneDirTree (ascii "pts")).files (ascii "/dev") ∧
        IsTerminal ⟨0o020620, 5, 3⟩ path st) ∧
      ∀ path, rval = some path → ∃ st, (path, st) ∈ (oneDirTree (ascii "pts")).files (ascii "/dev") ∧
        IsTerminal ⟨0o020620, 5, 3⟩ path st :=
  ttyname_finds (shown_oneDir (Or.inl rfl)) rfl (by decide) rfl (List.length_replicate) (by decide)

/-- Where standard input is a directory, `/dev/stdin` is one, and is not searched. -/
theorem ttyname_alias_directory :
    (oneDirTree (ascii "stdin")).ShownAt (oneDir (ascii "stdin")) isdir (fun path => path) (Fits (oneDir (ascii "stdin")))
      (ascii "/dev") ∧
    (ascii "/dev/stdin/0", ⟨0o020620, 5, 3⟩) ∈ (oneDirTree (ascii "stdin")).files (ascii "/dev") ∧
    ascii "/dev/stdin/0" ∉ aliases ∧ (¬ascii "/dev/fd" ++ [slash] <+: ascii "/dev/stdin/0") ∧ ischr ⟨0o020620, 5, 3⟩ = true ∧
    ∀ fuel, ∃ s', ttyname (oneDir (ascii "stdin")) (fuel + 1) true (some ⟨0o020620, 5, 3⟩) ⟨[], List.replicate 257 0⟩ =
      some (none, s') := by
  have shown := shown_oneDir (Or.inr rfl)
  refine ⟨shown, by decide, by decide, by decide, by decide, fun fuel => ?_⟩
  have start : (⟨[], List.replicate 257 0⟩ : Search).pathname.length = posixPathMax + 1 :=
    List.length_replicate
  have terminal : ischr ⟨0o020620, 5, 3⟩ = true := by decide
  have notFound : search (visit ⟨0o020620, 5, 3⟩) (fuel + 1 + 1) [(ascii "/dev", oneDirTree (ascii "stdin"))] = some none := rfl
  obtain ⟨s', run, _⟩ := ttyname_eq (fuel + 1) (listed_dev shown rfl) terminal rfl start notFound
  exact ⟨s', run⟩

end Apue.Termios
