import Apue.Base.Text

/-! # Directory trees and walks over them

A file system answers questions about path names.  What is below a path name is a tree, if it is
finite: a node that cannot be looked at, a file, a directory that cannot be opened, or a directory
with its entries in the order in which they are read.  A walk makes a series of calls and stops at
the first that does not give zero.
-/

namespace Apue.Base

/-! ## What path names stand for -/

/-- What the system says of path names; `σ` is what is said of a file. -/
structure FileSys (σ : Type) where
  stat : Bytes → Option σ
  /-- The names of the entries, the dot entries among them. -/
  opendir : Bytes → Option (List Bytes)

mutual
inductive FileTree (σ : Type) where
  | unseen
  | file (st : σ)
  | closed (st : σ)
  | dir (st : σ) (entries : Entries σ)

inductive Entries (σ : Type) where
  | nil
  | cons (name : Bytes) (node : FileTree σ) (rest : Entries σ)
end

/-- The entry for the directory itself or the one for its parent. -/
def isDot (name : Bytes) : Bool := name = ascii "." || name = ascii ".."

def slash : UInt8 := 47

/-- The path name of an entry. -/
def entryPath (path name : Bytes) : Bytes := path ++ slash :: name

variable {σ : Type}

def Entries.names : Entries σ → List Bytes
  | .nil => []
  | .cons name _ rest => name :: rest.names

mutual
def FileTree.depth : FileTree σ → Nat
  | .unseen | .file _ | .closed _ => 1
  | .dir _ entries => entries.depth + 1

def Entries.depth : Entries σ → Nat
  | .nil => 0
  | .cons _ node rest => max node.depth rest.depth
end

mutual
/-- The number of directories. -/
def FileTree.dirs : FileTree σ → Nat
  | .unseen | .file _ => 0
  | .closed _ => 1
  | .dir _ entries => entries.dirs + 1

def Entries.dirs : Entries σ → Nat
  | .nil => 0
  | .cons _ node rest => node.dirs + rest.dirs
end

mutual
/-- The files with their path names. -/
def FileTree.files : FileTree σ → Bytes → List (Bytes × σ)
  | .unseen, _ | .closed _, _ => []
  | .file st, path => [(path, st)]
  | .dir _ entries, path => entries.files path

def Entries.files : Entries σ → Bytes → List (Bytes × σ)
  | .nil, _ => []
  | .cons name node rest, path => node.files (entryPath path name) ++ rest.files path
end

def FileTree.isDirectory : FileTree σ → Bool
  | .unseen | .file _ => false
  | .closed _ | .dir _ _ => true

def Entries.toList : Entries σ → List (Bytes × FileTree σ)
  | .nil => []
  | .cons name node rest => (name, node) :: rest.toList

theorem Entries.names_eq (entries : Entries σ) : entries.names = entries.toList.map (·.1) :=
  match entries with
  | .nil => rfl
  | .cons name _ rest => congrArg (name :: ·) rest.names_eq

theorem Entries.dirs_eq (entries : Entries σ) :
    entries.dirs = (entries.toList.map (·.2.dirs)).sum :=
  match entries with
  | .nil => rfl
  | .cons _ node rest => by rw [Entries.dirs, rest.dirs_eq]; rfl

theorem Entries.files_eq (entries : Entries σ) (path : Bytes) :
    entries.files path = entries.toList.flatMap fun entry =>
      entry.2.files (entryPath path entry.1) :=
  match entries with
  | .nil => rfl
  | .cons _ _ rest => by rw [Entries.files, rest.files_eq path]; rfl

theorem nulFree_entryPath {path name : Bytes} (clean : NulFree path) (clean' : NulFree name) :
    NulFree (entryPath path name) := by
  intro member
  obtain inPath | inName := List.mem_append.mp member
  · exact clean inPath
  · obtain isSlash | inName := List.mem_cons.mp inName
    · simp [slash] at isSlash
    · exact clean' inName

/-! ## Path names below others -/

/-- The path name itself or one below it. -/
def Under (top path : Bytes) : Prop := path = top ∨ top ++ [slash] <+: path

instance (top path : Bytes) : Decidable (Under top path) :=
  inferInstanceAs (Decidable (path = top ∨ top ++ [slash] <+: path))

/-- The last name of a path is not part of a directory that it is below. -/
theorem below_entryPath {top path name : Bytes} (noSlash : slash ∉ name) :
    top ++ [slash] <+: entryPath path name ↔ Under top path := by
  have split : entryPath path name = path ++ [slash] ++ name := by simp [entryPath]
  rw [split]
  constructor
  · intro below
    have within : top ++ [slash] <+: path ++ [slash] := by
      obtain within | longer := List.prefix_or_prefix_of_prefix below (List.prefix_append _ name)
      · exact within
      · -- what the longer one has behind the directory would end with a slash of the name
        obtain ⟨more, same⟩ := longer
        rw [← same, List.prefix_append_right_inj] at below
        obtain rfl | ⟨front, last, rfl⟩ := List.eq_nil_or_concat more
        · exact ⟨[], by simpa using same.symm⟩
        · rw [List.concat_eq_append, ← List.append_assoc] at same
          have lasts := (List.append_inj' same rfl).2
          have isSlash : last = slash := by simpa using lasts
          exact absurd (below.subset (by simp [isSlash])) noSlash
    obtain same | below' := List.prefix_concat_iff.mp within
    · exact Or.inl (by simpa using same.symm)
    · exact Or.inr below'
  · rintro (same | below)
    · rw [same]
      exact List.prefix_append _ _
    · exact below.trans (by rw [List.append_assoc]; exact List.prefix_append _ _)

theorem Under.below {top path file : Bytes} (under : Under top path)
    (below : path ++ [slash] <+: file) :
    top ++ [slash] <+: file := by
  obtain rfl | above := under
  · exact below
  · exact (above.trans (List.prefix_append _ _)).trans below

theorem under_entryPath {top path name : Bytes} (noSlash : slash ∉ name) :
    Under top (entryPath path name) ↔ entryPath path name = top ∨ Under top path := by
  rw [Under, below_entryPath noSlash]

mutual
/-- The files of a tree are at its path name or below it. -/
theorem FileTree.files_under :
    ∀ (node : FileTree σ) (path : Bytes), ∀ file ∈ node.files path, Under path file.1
  | .unseen, _, _, member | .closed _, _, _, member => by simp [FileTree.files] at member
  | .file st, path, file, member => by
    simp only [FileTree.files, List.mem_singleton] at member
    exact Or.inl (by rw [member])
  | .dir _ entries, path, file, member => Or.inr (entries.files_below path file member)

theorem Entries.files_below :
    ∀ (entries : Entries σ) (path : Bytes), ∀ file ∈ entries.files path, path ++ [slash] <+: file.1
  | .nil, _, _, member => by simp [Entries.files] at member
  | .cons name node rest, path, file, member => by
    obtain inNode | inRest := List.mem_append.mp member
    · obtain same | below := node.files_under (entryPath path name) file inNode
      · rw [same]
        exact ⟨name, by simp [entryPath]⟩
      · exact List.IsPrefix.trans ⟨name ++ [slash], by simp [entryPath]⟩ below
    · exact rest.files_below path file inRest
end

section Shown

variable (fs : FileSys σ) (isDir : σ → Bool) (opened : Bytes → Bytes) (fits : Bytes → Bytes → Prop)

mutual
/-- The tree is what the file system shows at the path name.  A directory is opened under the name
`opened path`, and the names that are read from it, the dot entries among them, fit to its path
name. -/
def FileTree.ShownAt : FileTree σ → Bytes → Prop
  | .unseen, path => fs.stat path = none
  | .file st, path => fs.stat path = some st ∧ isDir st = false
  | .closed st, path => fs.stat path = some st ∧ isDir st = true ∧ fs.opendir (opened path) = none
  | .dir st entries, path => fs.stat path = some st ∧ isDir st = true ∧ entries.ShownIn path ∧
      ∃ names, fs.opendir (opened path) = some names ∧ names.filter (!isDot ·) = entries.names ∧
        ∀ name ∈ names, fits path name

def Entries.ShownIn : Entries σ → Bytes → Prop
  | .nil, _ => True
  | .cons name node rest, path => node.ShownAt (entryPath path name) ∧ rest.ShownIn path
end

end Shown

section Shown

variable {fs : FileSys σ} {isDir : σ → Bool} {opened : Bytes → Bytes} {fits : Bytes → Bytes → Prop}

theorem FileTree.ShownAt.seen {node : FileTree σ} {path : Bytes}
    (shown : node.ShownAt fs isDir opened fits path)
    (isDirectory : node.isDirectory = true) : ∃ st, fs.stat path = some st ∧ isDir st = true := by
  cases node with
  | closed st => exact ⟨st, shown.1, shown.2.1⟩
  | dir st entries => exact ⟨st, shown.1, shown.2.1⟩
  | unseen => cases isDirectory
  | file => cases isDirectory

theorem Entries.shownIn_iff (entries : Entries σ) (path : Bytes) :
    entries.ShownIn fs isDir opened fits path ↔
      ∀ entry ∈ entries.toList, entry.2.ShownAt fs isDir opened fits (entryPath path entry.1) :=
  match entries with
  | .nil => by simp [Entries.ShownIn, Entries.toList]
  | .cons name node rest => by simp [Entries.ShownIn, Entries.toList, rest.shownIn_iff path]

end Shown

/-! ## Walks -/

section Walks

variable {γ : Type} {func : List γ → Int}

/-- The calls made, and what the last of them gave if it is not zero; `func` may look at the calls
so far. -/
def callUntil (func : List γ → Int) (made : List γ) : List γ → List γ × Int
  | [] => (made, 0)
  | call :: calls =>
    if func (made ++ [call]) ≠ 0 then (made ++ [call], func (made ++ [call])) else callUntil func
      (made ++ [call]) calls

theorem callUntil_append (made calls calls' : List γ) :
    callUntil func made (calls ++ calls') =
      if (callUntil func made calls).2 ≠ 0 then callUntil func made calls
      else callUntil func (callUntil func made calls).1 calls' := by
  induction calls generalizing made with
  | nil => simp [callUntil]
  | cons call calls inductionHypothesis =>
    simp only [List.cons_append, callUntil]
    split
    next => rfl
    next => exact inductionHypothesis (made ++ [call])

/-- The calls made are the first of those there are: all, or up to the first that does not give
zero. -/
theorem callUntil_cases (func : List γ → Int) (made calls : List γ) :
    (callUntil func made calls = (made ++ calls, 0) ∧ ∀ n, 0 < n → n ≤ calls.length →
      func (made ++ calls.take n) = 0) ∨
    ∃ n, 0 < n ∧ n ≤ calls.length ∧
      callUntil func made calls = (made ++ calls.take n, func (made ++ calls.take n)) ∧
      func (made ++ calls.take n) ≠ 0 ∧ ∀ k, 0 < k → k < n → func (made ++ calls.take k) = 0 := by
  induction calls generalizing made with
  | nil =>
    left
    exact ⟨by simp [callUntil], fun n pos bound => by simp at bound; omega⟩
  | cons call calls inductionHypothesis =>
    have shift : ∀ n, made ++ (call :: calls).take (n + 1) = made ++ [call] ++ calls.take n := by
      simp
    simp only [callUntil]
    split
    next stops =>
      right
      exact ⟨1, by omega, by simp, by simp, by simpa using stops, fun k pos bound => by omega⟩
    next goesOn =>
      have first : func (made ++ [call]) = 0 := by simpa using goesOn
      obtain ⟨all, zero⟩ | ⟨n, pos, bound, upTo, stops, zero⟩ :=
        inductionHypothesis (made ++ [call])
      · left
        refine ⟨by simpa using all, fun n pos bound => ?_⟩
        obtain ⟨n, rfl⟩ : ∃ n', n = n' + 1 := ⟨n - 1, by omega⟩
        rw [shift]
        cases n with
        | zero => simpa using first
        | succ n => exact zero (n + 1) (by omega) (by simpa using bound)
      · right
        refine ⟨n + 1, by omega, by simpa using bound, ?_⟩
        rw [shift]
        refine ⟨upTo, stops, fun k pos less => ?_⟩
        obtain ⟨k, rfl⟩ : ∃ k', k = k' + 1 := ⟨k - 1, by omega⟩
        rw [shift]
        cases k with
        | zero => simpa using first
        | succ k => exact zero (k + 1) (by omega) (by omega)

end Walks

end Apue.Base
