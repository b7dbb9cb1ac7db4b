import Apue.Base.Buffer
import Apue.Base.DirTree

/-! # A walk over a directory tree

`myftw` calls a function for every file below a path name.  All levels of `dopath` share the buffer
`fullpath`: a level appends to the path name in it, and leaves it to the level above to take the
appended part away again.

`malloc` and `realloc` find the memory: where they do not, the program ends.  What they allocate
holds any bytes; a place of the buffer is allocated once, so the bytes are a function of the place.
The function that is called may look at all calls there have been, and does not change the
directories.  An access outside the buffer, or an `int` that overflows, gives no result.
-/

namespace Apue.Filedir

open Apue.Base

/-! ## The code -/

/-- The member of `struct stat` that is looked at here. -/
structure Stat where
  stMode : Nat
  deriving DecidableEq, Repr

/-- `S_ISDIR(st_mode)`. -/
def isdir (statbuf : Stat) : Bool := statbuf.stMode &&& 0o170000 = 0o040000

def nameMax : Nat := 255

def ftwF : Int := 1

def ftwD : Int := 2

def ftwDnr : Int := 3

def ftwNs : Int := 4

/-- The arguments of one call of `func`; where `lstat` failed nothing is known of the second one. -/
structure Call where
  path : Bytes
  statbuf : Option Stat
  type : Int
  deriving DecidableEq, Repr

/-- An `int` computed from others. -/
def int (z : Int) : Option Int := if -2 ^ 31 ≤ z ∧ z < 2 ^ 31 then some z else none

/-- The place `buf + n` in an array, if it may be one. -/
def place (n : Int) : Option Nat := if 0 ≤ n then some n.toNat else none

/-! `path_alloc` -/

/-- The static variables of `path_alloc`. -/
structure PathVars where
  pathmax : Int
  posixVersion : Int
  xsiVersion : Int

/-- What `sysconf` and `pathconf` return; the flag is for `errno == 0` behind the last. -/
structure PathConf where
  scVersion : Int
  scXopenVersion : Int
  pcPathMax : Int × Bool

def pathMaxGuess : Int := 1024

/-- `path_alloc`: the size of the memory it returns; it ends the program on an error of
`pathconf`. -/
def pathAlloc (conf : PathConf) (vars : PathVars) : Option (Nat × PathVars) := do
  let posixVersion := if vars.posixVersion = 0 then conf.scVersion else vars.posixVersion
  let xsiVersion := if vars.xsiVersion = 0 then conf.scXopenVersion else vars.xsiVersion
  let pathmax ←
    if vars.pathmax = 0 then
      if conf.pcPathMax.1 < 0 then if conf.pcPathMax.2 then some pathMaxGuess else none
      else some (conf.pcPathMax.1 + 1)
    else some vars.pathmax
  let size := if posixVersion < 200112 ∧ xsiVersion < 4 then sizeT (pathmax + 1) else sizeT pathmax
  some (size, { pathmax, posixVersion, xsiVersion })

/-! `myftw` -/

/-- The static variables, and the calls there have been. -/
structure Walk where
  fullpath : Bytes
  pathlen : Nat
  calls : List Call

section Code

variable (fs : FileSys Stat) (func : List Call → Int) (garbage : Nat → UInt8)

/-- `realloc` to a size that is not smaller. -/
def grow (buf : Bytes) (size : Nat) : Bytes :=
  buf ++ (List.range (size - buf.length)).map fun i => garbage (buf.length + i)

/-- `func(...)`. -/
def call (args : Call) (s : Walk) : Int × Walk :=
  (func (s.calls ++ [args]), { s with calls := s.calls ++ [args] })

/-- The loop over the names of a directory, with `dopath` for the level below. -/
def names (dopath : Walk → Option (Int × Walk)) (n : Int) :
    List Bytes → Int → Walk → Option (Int × Walk)
  | [], ret, s => some (ret, s)
  | dName :: rest, ret, s =>
    if strEq dName (ascii ".") || strEq dName (ascii "..") then names dopath n rest ret s
    else do
      let i ← place n
      let fullpath ← copyIn s.fullpath i (cstr dName ++ [0])
      let (ret, s) ← dopath { s with fullpath := fullpath }
      if ret ≠ 0 then some (ret, s) else names dopath n rest ret s

/-- `if (need > pathlen)`: the buffer is made twice as large. -/
def expand (need : Nat) (s : Walk) : Walk :=
  if need > s.pathlen then
    { s with fullpath := grow garbage s.fullpath (s.pathlen * 2), pathlen := s.pathlen * 2 }
  else s

/-- The part of `dopath` in front of `opendir`: a slash behind the path name, with the buffer made
larger first if need be; `n` is behind the slash. -/
def appendSlash (path : Bytes) (s : Walk) : Option (Int × Walk) := do
  let n := cInt (strlen path)
  let need ← int (n + nameMax + 2)
  let s := expand garbage (sizeT need) s
  let i ← place n
  let fullpath ← store s.fullpath i slash
  let n := n + 1
  let i ← place n
  let fullpath ← store fullpath i 0
  some (n, { s with fullpath := fullpath })

/-- `fullpath[n-1] = 0` -/
def eraseSlash (n : Int) (s : Walk) : Option Walk := do
  let i ← place (n - 1)
  let fullpath ← store s.fullpath i 0
  some { s with fullpath := fullpath }

/-- The part of `dopath` from `opendir` on, with `dopath` for the level below. -/
def readDir (dopath : Walk → Option (Int × Walk)) (statbuf : Stat) (ret n : Int) (s : Walk) :
    Option (Int × Walk) := do
  let path ← cstrIn s.fullpath
  match fs.opendir path with
  | none => some (call func ⟨path, some statbuf, ftwDnr⟩ s)
  | some entries => do
    let (ret, s) ← names dopath n entries ret s
    let s ← eraseSlash n s
    some (ret, s)

/-- `dopath`, so many levels deep. -/
def dopath : Nat → Walk → Option (Int × Walk)
  | 0, _ => none
  | fuel + 1, s => do
    let path ← cstrIn s.fullpath
    match fs.stat path with
    | none => some (call func ⟨path, none, ftwNs⟩ s)
    | some statbuf =>
      if isdir statbuf = false then some (call func ⟨path, some statbuf, ftwF⟩ s)
      else
        let (ret, s) := call func ⟨path, some statbuf, ftwD⟩ s
        if ret ≠ 0 then some (ret, s)
        else do
          let (n, s) ← appendSlash garbage path s
          readDir fs func (dopath fuel) statbuf ret n s

/-- `myftw` with the memory that `path_alloc` returns. -/
def myftw (fuel : Nat) (conf : PathConf) (vars : PathVars) (pathname : Bytes) :
    Option (Int × Walk) := do
  let (pathlen, _) ← pathAlloc conf vars
  let fullpath := grow garbage [] pathlen
  let len := strlen pathname
  let (fullpath, pathlen) :=
    if pathlen ≤ len then (grow garbage fullpath (len * 2), len * 2) else (fullpath, pathlen)
  let fullpath ← copyIn fullpath 0 (cstr pathname ++ [0])
  dopath fs func garbage fuel { fullpath, pathlen, calls := [] }

end Code

/-! ## What is to be called -/

/-- The path name under which a directory is opened. -/
def opened (path : Bytes) : Bytes := path ++ [slash]

/-- A name of 1 to `NAME_MAX` bytes. -/
def Fits (_ name : Bytes) : Prop := name ≠ [] ∧ name.length ≤ nameMax ∧ NulFree name

instance (path name : Bytes) : Decidable (Fits path name) :=
  inferInstanceAs (Decidable (name ≠ [] ∧ name.length ≤ nameMax ∧ NulFree name))

mutual
/-- The calls for a node in pre-order, with the path names from `path` on. -/
def visits : FileTree Stat → Bytes → List Call
  | .unseen, path => [⟨path, none, ftwNs⟩]
  | .file st, path => [⟨path, some st, ftwF⟩]
  | .closed st, path => [⟨path, some st, ftwD⟩, ⟨opened path, some st, ftwDnr⟩]
  | .dir st entries, path => ⟨path, some st, ftwD⟩ :: entriesVisits entries path

def entriesVisits : Entries Stat → Bytes → List Call
  | .nil, _ => []
  | .cons name node rest, path => visits node (entryPath path name) ++ entriesVisits rest path
end

/-! ## The buffer -/

section Buffer

variable {s s' : Walk} {text path : Bytes} {c : UInt8}

/-- The buffer has the size that is recorded, room for a name behind the shortest path, and begins
with the text. -/
structure Held (s : Walk) (text : Bytes) : Prop where
  front : text <+: s.fullpath
  size : s.fullpath.length = s.pathlen
  least : nameMax + 2 ≤ s.pathlen

theorem Held.shorter (held : Held s (text ++ path)) : Held s text where
  front := (List.prefix_append text path).trans held.front
  size := held.size
  least := held.least

theorem Held.room (held : Held s (path ++ [c])) : path.length < s.pathlen := by
  have length := held.front.length_le
  rw [List.length_append, List.length_singleton, held.size] at length
  omega

theorem Held.store (held : Held s text) (room : text.length < s.pathlen) (c : UInt8) :
    ∃ fullpath, store s.fullpath text.length c = some fullpath ∧
      Held { s with fullpath := fullpath } (text ++ [c]) := by
  obtain ⟨fullpath, stored, front, length⟩ :=
    store_behind held.front (by rw [held.size]; exact room) c
  exact ⟨fullpath, stored, front, length.trans held.size, held.least⟩

theorem Held.copy (held : Held s text) (room : text.length + path.length ≤ s.pathlen) :
    ∃ fullpath, copyIn s.fullpath text.length path = some fullpath ∧
      Held { s with fullpath := fullpath } (text ++ path) := by
  have inside : text.length + path.length ≤ s.fullpath.length := by rw [held.size]; exact room
  obtain ⟨fullpath, copied, front, length⟩ := copyIn_behind held.front inside
  exact ⟨fullpath, copied, front, length.trans held.size, held.least⟩

theorem length_grow (garbage : Nat → UInt8) (buf : Bytes) {size : Nat} (more : buf.length ≤ size) :
    (grow garbage buf size).length = size := by
  simp only [grow, List.length_append, List.length_map, List.length_range]
  omega

end Buffer

theorem place_natCast (n : Nat) : place n = some n := by simp [place]

theorem int_of_small {z : Int} (lower : 0 ≤ z) (upper : z < 2 ^ 31) : int z = some z :=
  if_pos ⟨by omega, upper⟩

/-- Doubling once makes the room for a slash, a name and the NUL behind the path name. -/
theorem Held.expand {s : Walk} {path : Bytes} (held : Held s (path ++ [0]))
    (garbage : Nat → UInt8) :
    Held (expand garbage (path.length + nameMax + 2) s) path ∧
      path.length + nameMax + 2 ≤ (expand garbage (path.length + nameMax + 2) s).pathlen ∧
      s.pathlen ≤ (expand garbage (path.length + nameMax + 2) s).pathlen ∧
      (expand garbage (path.length + nameMax + 2) s).calls = s.calls := by
  have room := held.room
  have least := held.least
  simp only [Filedir.expand]
  split
  next small =>
    have length := length_grow garbage s.fullpath
      (show s.fullpath.length ≤ s.pathlen * 2 by rw [held.size]; omega)
    refine ⟨⟨held.shorter.front.trans (List.prefix_append _ _), length, ?_⟩, ?_, ?_, rfl⟩ <;>
      dsimp only <;> omega
  next large => exact ⟨held.shorter, by omega, Nat.le_refl _, rfl⟩

theorem appendSlash_held {s : Walk} {path : Bytes} (garbage : Nat → UInt8)
    (held : Held s (path ++ [0])) (clean : NulFree path)
    (short : path.length < 2 ^ 30) :
    ∃ s', appendSlash garbage path s = some (((path.length + 1 : Nat) : Int), s') ∧
      Held s' (opened path ++ [0]) ∧
      (opened path).length + nameMax + 1 ≤ s'.pathlen ∧ s.pathlen ≤ s'.pathlen ∧
        s'.calls = s.calls := by
  have isInt : int ((path.length : Nat) + nameMax + 2) =
      some ((path.length + nameMax + 2 : Nat) : Int) :=
    int_of_small (by omega) (by simp only [nameMax]; omega)
  have sameSize : sizeT ((path.length + nameMax + 2 : Nat) : Int) = path.length + nameMax + 2 :=
    sizeT_natCast (by simp only [nameMax]; omega)
  obtain ⟨heldRoom, room, larger, sameCalls⟩ := held.expand garbage
  obtain ⟨fullpath, stored, heldSlash⟩ := heldRoom.store (by omega) slash
  have roomZero : (path ++ [slash]).length <
      (expand garbage (path.length + nameMax + 2) s).pathlen := by
    rw [List.length_append, List.length_singleton]
    omega
  obtain ⟨fullpath', stored', heldOpen⟩ := heldSlash.store roomZero 0
  rw [List.length_append, List.length_singleton] at stored'
  refine ⟨{ expand garbage (path.length + nameMax + 2) s with fullpath := fullpath' }, ?_, heldOpen,
    ?_, larger, sameCalls⟩
  · simp only [appendSlash, strlen_of_nulFree clean,
      cInt_of_small (show path.length < 2 ^ 31 by omega), isInt,
      Option.bind_eq_bind, Option.bind_some, sameSize, place_natCast, stored]
    rw [show ((path.length : Nat) : Int) + 1 = ((path.length + 1 : Nat) : Int) from rfl,
      place_natCast, Option.bind_some, stored']
    rfl
  · rw [opened, List.length_append, List.length_singleton]
    show path.length + 1 + nameMax + 1 ≤ (expand garbage (path.length + nameMax + 2) s).pathlen
    omega

theorem eraseSlash_held {s : Walk} {path : Bytes} (held : Held s (opened path)) :
    ∃ s', eraseSlash ((path.length + 1 : Nat) : Int) s = some s' ∧ Held s' (path ++ [0]) ∧
      s'.pathlen = s.pathlen ∧
      s'.calls = s.calls := by
  obtain ⟨fullpath, stored, heldZero⟩ := held.shorter.store held.room 0
  refine ⟨{ s with fullpath := fullpath }, ?_, heldZero, rfl, rfl⟩
  have before : (((path.length + 1 : Nat) : Int) - 1) = (path.length : Nat) := by omega
  rw [eraseSlash, before, place_natCast, Option.bind_eq_bind, Option.bind_some, stored]
  rfl

/-! ## The walk -/

section Code

variable {fs : FileSys Stat} {func : List Call → Int} {garbage : Nat → UInt8}

theorem isDot_eq {name : Bytes} (clean : NulFree name) :
    (strEq name (ascii ".") || strEq name (ascii "..")) = isDot name := by
  simp only [strEq, isDot, cstr_of_nulFree clean]
  rfl

/-- The dot entries are passed over. -/
theorem names_filter (dopath : Walk → Option (Int × Walk)) (n : Int) (entries : List Bytes)
    (ret : Int) (s : Walk)
    (clean : ∀ name ∈ entries, NulFree name) :
    names dopath n entries ret s = names dopath n (entries.filter (!isDot ·)) ret s := by
  induction entries generalizing ret s with
  | nil => rfl
  | cons name rest inductionHypothesis =>
    have later := fun ret s => inductionHypothesis ret s fun name member =>
      clean name (List.mem_cons_of_mem _ member)
    have dot := isDot_eq (clean name List.mem_cons_self)
    cases isDotName : isDot name with
    | true =>
      rw [isDotName] at dot
      simp only [names, dot, if_true, List.filter_cons, isDotName]
      exact later ret s
    | false =>
      rw [isDotName] at dot
      simp only [names, dot, List.filter_cons, isDotName, later]
      simp [names, dot]

/-- What a call of `dopath` does: it makes the calls that are due, and leaves the path name in the
buffer, which has not become smaller. -/
def Walks (func : List Call → Int) (s : Walk) (calls : List Call) (text : Bytes)
    (result : Option (Int × Walk)) : Prop :=
  ∃ ret s', result = some (ret, s') ∧ callUntil func s.calls calls = (s'.calls, ret) ∧
    Held s' text ∧ s.pathlen ≤ s'.pathlen

theorem Held.called (func : List Call → Int) {s : Walk} {path : Bytes} (held : Held s path)
    (args : Call) :
    Walks func s [args] path (some (call func args s)) := by
  refine ⟨_, _, rfl, ?_, ⟨held.front, held.size, held.least⟩, Nat.le_refl _⟩
  by_cases zero : func (s.calls ++ [args]) = 0 <;> simp [callUntil, zero]

/-- One call, and what follows if it gives zero. -/
theorem Walks.cons {s : Walk} {args : Call} {calls : List Call} {text : Bytes}
    {result : Option (Int × Walk)}
    (stops : func (s.calls ++ [args]) ≠ 0 → Held s text ∧ result = some (call func args s))
    (goesOn : func (s.calls ++ [args]) = 0 →
    Walks func { s with calls := s.calls ++ [args] } calls text result) :
    Walks func s (args :: calls) text result := by
  by_cases zero : func (s.calls ++ [args]) = 0
  · obtain ⟨ret, s', run, made, held, larger⟩ := goesOn zero
    exact ⟨ret, s', run, by simpa [callUntil, zero] using made, held, larger⟩
  · obtain ⟨held, run⟩ := stops zero
    exact ⟨_, _, run, by simp [callUntil, zero], ⟨held.front, held.size, held.least⟩, Nat.le_refl _⟩

/-- `lstat` finds no name of 2^30 bytes or more. -/
def LongFails (fs : FileSys Stat) : Prop :=
  ∀ path : Bytes, 2 ^ 30 ≤ path.length → fs.stat path = none

theorem Held.recount {s s' : Walk} {text : Bytes} (held : Held s text)
    (sameText : s'.fullpath = s.fullpath)
    (sameSize : s'.pathlen = s.pathlen) : Held s' text where
  front := by rw [sameText]; exact held.front
  size := by rw [sameText, sameSize]; exact held.size
  least := by rw [sameSize]; exact held.least

theorem nulFree_opened {path : Bytes} (clean : NulFree path) : NulFree (opened path) := by
  intro member
  obtain inPath | isSlash := List.mem_append.mp member
  · exact clean inPath
  · simp [slash] at isSlash

theorem opened_append (path name : Bytes) : opened path ++ name = entryPath path name := by
  simp [opened, entryPath]

theorem Walks.earlier {s s' : Walk} {calls : List Call} {text : Bytes}
    {result : Option (Int × Walk)}
    (walks : Walks func s' calls text result) (sameCalls : s'.calls = s.calls)
    (larger : s.pathlen ≤ s'.pathlen) :
    Walks func s calls text result := by
  obtain ⟨ret, s'', run, made, held, larger'⟩ := walks
  exact ⟨ret, s'', run, by rw [← sameCalls]; exact made, held, Nat.le_trans larger larger'⟩

theorem dopath_isDir {fuel : Nat} {s : Walk} {path : Bytes} {st : Stat}
    (seen : fs.stat path = some st)
    (isDirectory : isdir st = true) (clean : NulFree path) (held : Held s (path ++ [0])) :
    dopath fs func garbage (fuel + 1) s =
      if func (s.calls ++ [⟨path, some st, ftwD⟩]) ≠ 0 then some (call func ⟨path, some st, ftwD⟩ s)
      else (appendSlash garbage path { s with calls := s.calls ++ [⟨path, some st, ftwD⟩] }).bind
          fun opening =>
        readDir fs func (dopath fs func garbage fuel) st
          (func (s.calls ++ [⟨path, some st, ftwD⟩])) opening.1 opening.2 := by
  have notFile : ¬isdir st = false := by rw [isDirectory]; decide
  rw [dopath, cstrIn_eq held.front clean, Option.bind_eq_bind, Option.bind_some]
  simp only [seen, if_neg notFile]
  rfl

/-- A directory: the call for it, and what is read from it if that call gives zero. -/
theorem dopath_directory (long : LongFails fs) {fuel : Nat} {s : Walk} {path : Bytes} {st : Stat}
    {calls : List Call}
    (seen : fs.stat path = some st) (isDirectory : isdir st = true) (clean : NulFree path)
    (held : Held s (path ++ [0]))
    (rest : ∀ sOpen, Held sOpen (opened path ++ [0]) →
    (opened path).length + nameMax + 1 ≤ sOpen.pathlen →
      Walks func sOpen calls path
        (readDir fs func (dopath fs func garbage fuel) st 0
        ((path.length + 1 : Nat) : Int) sOpen)) :
    Walks func s (⟨path, some st, ftwD⟩ :: calls) path (dopath fs func garbage (fuel + 1) s) := by
  have short : path.length < 2 ^ 30 := by
    by_contra atLeast
    rw [long path (by omega)] at seen
    cases seen
  rw [dopath_isDir seen isDirectory clean held]
  apply Walks.cons
  · intro stops
    exact ⟨held.shorter, if_pos stops⟩
  · intro zero
    have heldCalled : Held { s with calls := s.calls ++ [⟨path, some st, ftwD⟩] } (path ++ [0]) :=
      held.recount rfl rfl
    obtain ⟨sOpen, appended, heldOpen, room, larger, sameCalls⟩ :=
      appendSlash_held garbage heldCalled clean short
    rw [if_neg (by simp [zero]), appended, zero]
    exact (rest sOpen heldOpen room).earlier sameCalls larger

mutual
/-- On the depth of the tree: a call of `dopath` walks the node at the path name in the buffer. -/
theorem dopath_walks (long : LongFails fs) :
    ∀ (node : FileTree Stat) {fuel : Nat} {s : Walk} {path : Bytes},
    node.ShownAt fs isdir opened Fits path → node.depth ≤ fuel → NulFree path →
      Held s (path ++ [0]) →
    Walks func s (visits node path) path (dopath fs func garbage fuel s)
  | .unseen, fuel, s, path, shown, deep, clean, held => by
    obtain ⟨fuel, rfl⟩ : ∃ fuel', fuel = fuel' + 1 :=
      ⟨fuel - 1, by simp only [FileTree.depth] at deep; omega⟩
    simp only [FileTree.ShownAt] at shown
    simp only [dopath, cstrIn_eq held.front clean, Option.bind_eq_bind, Option.bind_some, shown]
    exact held.shorter.called func _
  | .file st, fuel, s, path, shown, deep, clean, held => by
    obtain ⟨fuel, rfl⟩ : ∃ fuel', fuel = fuel' + 1 :=
      ⟨fuel - 1, by simp only [FileTree.depth] at deep; omega⟩
    simp only [FileTree.ShownAt] at shown
    simp only [dopath, cstrIn_eq held.front clean, Option.bind_eq_bind, Option.bind_some,
      shown, if_true]
    exact held.shorter.called func _
  | .closed st, fuel, s, path, shown, deep, clean, held => by
    obtain ⟨fuel, rfl⟩ : ∃ fuel', fuel = fuel' + 1 :=
      ⟨fuel - 1, by simp only [FileTree.depth] at deep; omega⟩
    simp only [FileTree.ShownAt] at shown
    obtain ⟨seen, isDirectory, notOpened⟩ := shown
    apply dopath_directory long seen isDirectory clean held
    intro sOpen heldOpen _
    simp only [readDir, cstrIn_eq heldOpen.front (nulFree_opened clean), Option.bind_eq_bind,
      Option.bind_some, notOpened]
    obtain ⟨ret, s', run, made, held', larger⟩ :=
      heldOpen.shorter.called func ⟨opened path, some st, ftwDnr⟩
    exact ⟨ret, s', run, made, held'.shorter, larger⟩
  | .dir st entries, fuel, s, path, shown, deep, clean, held => by
    obtain ⟨fuel, rfl⟩ : ∃ fuel', fuel = fuel' + 1 :=
      ⟨fuel - 1, by simp only [FileTree.depth] at deep; omega⟩
    simp only [FileTree.ShownAt] at shown
    obtain ⟨seen, isDirectory, inside, names', isOpened, sameNames, fit⟩ := shown
    apply dopath_directory long seen isDirectory clean held
    intro sOpen heldOpen room
    have fit' : ∀ name ∈ entries.names, Fits path name ∧ isDot name = false := by
      intro name member
      rw [← sameNames, List.mem_filter] at member
      exact ⟨fit name member.1, by simpa using member.2⟩
    have deep' : entries.depth ≤ fuel := by simp only [FileTree.depth] at deep; omega
    obtain ⟨ret, s', run, made, held', larger⟩ :=
      names_walk long entries inside fit' deep' clean heldOpen.shorter room
    obtain ⟨s'', erased, held'', sameSize, sameCalls⟩ := eraseSlash_held held'
    refine ⟨ret, s'', ?_, by rw [sameCalls]; exact made, held''.shorter, by rw [sameSize]; exact larger⟩
    simp only [readDir, cstrIn_eq heldOpen.front (nulFree_opened clean), Option.bind_eq_bind,
      Option.bind_some, isOpened]
    rw [names_filter _ _ names' 0 sOpen fun name member => (fit name member).2.2, sameNames, run,
      Option.bind_some, erased]
    rfl

theorem names_walk (long : LongFails fs) :
    ∀ (entries : Entries Stat) {fuel : Nat} {s : Walk} {path : Bytes},
    entries.ShownIn fs isdir opened Fits path →
      (∀ name ∈ entries.names, Fits path name ∧ isDot name = false) →
    entries.depth ≤ fuel → NulFree path → Held s (opened path) →
      (opened path).length + nameMax + 1 ≤ s.pathlen →
    Walks func s (entriesVisits entries path) (opened path)
      (names (dopath fs func garbage fuel) ((path.length + 1 : Nat) : Int) entries.names 0 s)
  | .nil, fuel, s, path, _, _, _, _, held, _ => by
    exact ⟨0, s, rfl, rfl, held, Nat.le_refl _⟩
  | .cons name node rest, fuel, s, path, shown, fit, deep, clean, held, room => by
    simp only [Entries.ShownIn] at shown
    have deepNode : node.depth ≤ fuel := by simp only [Entries.depth] at deep; omega
    have deepRest : rest.depth ≤ fuel := by simp only [Entries.depth] at deep; omega
    obtain ⟨⟨_, short, cleanName⟩, notDot⟩ := fit name List.mem_cons_self
    have fit' := fun name' (member : name' ∈ rest.names) =>
      fit name' (List.mem_cons_of_mem _ member)
    -- the name is copied behind the slash
    have roomName : (opened path).length + (name ++ [0]).length ≤ s.pathlen := by
      rw [List.length_append, List.length_singleton]
      omega
    obtain ⟨fullpath, copied, heldName⟩ := held.copy roomName
    rw [← List.append_assoc, opened_append] at heldName
    obtain ⟨ret, s', run, made, held', larger⟩ :=
      dopath_walks long node shown.1 deepNode (nulFree_entryPath clean cleanName) heldName
    rw [← opened_append] at held'
    have unfolded : names (dopath fs func garbage fuel)
        ((path.length + 1 : Nat) : Int) (name :: rest.names) 0 s =
        if ret ≠ 0 then some (ret, s')
        else names (dopath fs func garbage fuel) ((path.length + 1 : Nat) : Int) rest.names
          ret s' := by
      have behind : (opened path).length = path.length + 1 := by simp [opened]
      rw [behind] at copied
      simp only [names, isDot_eq cleanName, notDot, place_natCast, Option.bind_eq_bind,
        Option.bind_some,
        cstr_of_nulFree cleanName, copied, run]
      rfl
    rw [Entries.names, unfolded]
    by_cases zero : ret = 0
    · subst zero
      rw [if_neg (by simp)]
      obtain ⟨ret', s'', run', made', held'', larger'⟩ :=
        names_walk long rest shown.2 fit' deepRest clean held'.shorter (Nat.le_trans room larger)
      refine ⟨ret', s'', run', ?_, held'', Nat.le_trans larger larger'⟩
      rw [entriesVisits, callUntil_append, made, if_neg (by simp)]
      exact made'
    · rw [if_pos zero]
      refine ⟨ret, s', rfl, ?_, held'.shorter, larger⟩
      rw [entriesVisits, callUntil_append, made, if_pos zero]
end

/-- The copy of the path name into memory that was just allocated. -/
theorem copy_start {buf : Bytes} (pathname : Bytes) {pathlen : Nat} (size : buf.length = pathlen)
    (least : nameMax + 2 ≤ pathlen)
    (room : pathname.length < pathlen) :
    ∃ fullpath, copyIn buf 0 (pathname ++ [0]) = some fullpath ∧
      Held { fullpath := fullpath, pathlen := pathlen, calls := [] } (pathname ++ [0]) := by
  have held : Held { fullpath := buf, pathlen := pathlen, calls := [] } [] :=
    ⟨List.nil_prefix, size, least⟩
  have inside : ([] : Bytes).length + (pathname ++ [0]).length ≤ pathlen := by
    rw [List.length_append, List.length_singleton, List.length_nil]
    omega
  exact held.copy inside

theorem myftw_started {pathname : Bytes} {conf : PathConf} {vars vars' : PathVars} {size : Nat}
    (fuel : Nat)
    (clean : NulFree pathname) (allocated : pathAlloc conf vars = some (size, vars'))
    (large : nameMax + 2 ≤ size) :
    ∃ s, myftw fs func garbage fuel conf vars pathname = dopath fs func garbage fuel s ∧
      Held s (pathname ++ [0]) ∧
      s.calls = [] := by
  have length : (grow garbage [] size).length = size := length_grow garbage [] (Nat.zero_le size)
  simp only [myftw, allocated, Option.bind_eq_bind, Option.bind_some, strlen_of_nulFree clean,
    cstr_of_nulFree clean]
  split
  next tooShort =>
    have grown : (grow garbage (grow garbage [] size) (pathname.length * 2)).length =
        pathname.length * 2 :=
      length_grow garbage _ (by rw [length]; omega)
    obtain ⟨fullpath, copied, held⟩ :=
      copy_start pathname grown (by omega) (by simp only [nameMax] at large; omega)
    refine ⟨{ fullpath := fullpath, pathlen := pathname.length * 2, calls := [] }, ?_, held, rfl⟩
    rw [copied, Option.bind_some]
  next longEnough =>
    obtain ⟨fullpath, copied, held⟩ := copy_start pathname length large (by omega)
    refine ⟨{ fullpath := fullpath, pathlen := size, calls := [] }, ?_, held, rfl⟩
    rw [copied, Option.bind_some]

/-- `myftw` makes the calls for all nodes in pre-order, up to the first that does not give zero, and
returns what that gave.  Nothing is written outside the buffer, which has the size that is
recorded. -/
theorem myftw_walks (long : LongFails fs) {node : FileTree Stat} {pathname : Bytes}
    (shown : node.ShownAt fs isdir opened Fits pathname) (clean : NulFree pathname)
    {conf : PathConf} {vars vars' : PathVars}
    {size : Nat} (allocated : pathAlloc conf vars = some (size, vars')) (large : nameMax + 2 ≤ size)
    {fuel : Nat}
    (deep : node.depth ≤ fuel) :
    ∃ ret s', myftw fs func garbage fuel conf vars pathname = some (ret, s') ∧
      s'.fullpath.length = s'.pathlen ∧
      ((ret = 0 ∧ s'.calls = visits node pathname ∧
          ∀ n, 0 < n → n ≤ (visits node pathname).length →
            func ((visits node pathname).take n) = 0) ∨
        ∃ n, 0 < n ∧ n ≤ (visits node pathname).length ∧ s'.calls = (visits node pathname).take n ∧
          ret = func s'.calls ∧ ret ≠ 0 ∧ ∀ k, 0 < k → k < n →
            func ((visits node pathname).take k) = 0) := by
  obtain ⟨s, started, held, noCalls⟩ := myftw_started fuel clean allocated large
  obtain ⟨ret, s', run, made, held', -⟩ := dopath_walks long node shown deep clean held
  rw [noCalls] at made
  refine ⟨ret, s', started.trans run, held'.size, ?_⟩
  obtain ⟨all, zero⟩ | ⟨n, pos, bound, upTo, stops, zero⟩ :=
    callUntil_cases func [] (visits node pathname)
  · left
    rw [all, Prod.mk.injEq] at made
    exact ⟨made.2.symm, made.1.symm, zero⟩
  · right
    rw [upTo, Prod.mk.injEq] at made
    exact ⟨n, pos, bound,
      made.1.symm, by rw [← made.1, ← made.2], by rw [← made.2]; exact stops, zero⟩

end Code

/-- A directory with a file and a directory that cannot be opened. -/
def twoEntries : FileSys Stat where
  stat path :=
    if path = ascii "a" ∨ path = ascii "a/c" then some ⟨0o040755⟩
    else if path = ascii "a/b" then some ⟨0o100644⟩
    else none
  opendir path := if path = ascii "a/" then some [ascii ".", ascii "b", ascii "..", ascii "c"] else none

theorem longFails_twoEntries : LongFails twoEntries := by
  intro path long
  have different : ∀ text : Bytes, text.length < 2 ^ 30 → path ≠ text := by
    rintro text short rfl
    omega
  simp [twoEntries, different (ascii "a") (by decide), different (ascii "a/b") (by decide), different (ascii "a/c") (by decide)]

def twoEntriesTree : FileTree Stat :=
  .dir ⟨0o040755⟩ (.cons (ascii "b") (.file ⟨0o100644⟩) (.cons (ascii "c") (.closed ⟨0o040755⟩) .nil))

theorem shown_twoEntries : twoEntriesTree.ShownAt twoEntries isdir opened Fits (ascii "a") := by
  simp only [twoEntriesTree, FileTree.ShownAt, Entries.ShownIn]
  refine ⟨by decide, by decide, ⟨⟨by decide, by decide⟩, ⟨by decide, by decide, by decide⟩, trivial⟩, ?_⟩
  exact ⟨[ascii ".", ascii "b", ascii "..", ascii "c"], by decide, by decide, by decide⟩

/-- A function that stops the walk at the third call. -/
theorem myftw_walks_twoEntries : ∃ ret s',
    myftw twoEntries (fun calls => if calls.length = 3 then 5 else 0) (fun _ => 170) 2 ⟨200809, 700,
      (4095, false)⟩ ⟨0, 0, 0⟩
      (ascii "a") = some (ret, s') ∧ s'.fullpath.length = s'.pathlen ∧
    ((ret = 0 ∧ s'.calls = visits twoEntriesTree (ascii "a") ∧ ∀ n, 0 < n → n ≤ (visits twoEntriesTree (ascii "a")).length →
        (if ((visits twoEntriesTree (ascii "a")).take n).length = 3 then (5 : Int) else 0) = 0) ∨
      ∃ n, 0 < n ∧ n ≤ (visits twoEntriesTree (ascii "a")).length ∧ s'.calls = (visits twoEntriesTree (ascii "a")).take n ∧
        ret = (if s'.calls.length = 3 then 5 else 0) ∧ ret ≠ 0 ∧
        ∀ k, 0 < k → k < n → (if ((visits twoEntriesTree (ascii "a")).take k).length = 3 then (5 : Int) else 0) = 0) :=
  myftw_walks longFails_twoEntries shown_twoEntries (by decide)
    (show _ = some (4096, ⟨4096, 200809, 700⟩) from rfl) (by decide)
    (by decide)

end Apue.Filedir
