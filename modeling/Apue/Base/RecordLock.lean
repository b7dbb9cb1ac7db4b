import Apue.Base.Text

/-! # Advisory record locks

`fcntl` record locks: a lock covers a byte range of a file for one process, readers share, a writer
excludes everybody else, a process never conflicts with itself, and unlocking part of a range keeps
the rest.  The table is the list of the locks held.
-/

namespace Apue.Base

inductive LockType where
  | read
  | write
  deriving DecidableEq, Repr

/-- The bytes from `start` up to `stop`, or to the end of every file when there is no `stop`. -/
structure Range where
  start : Nat
  stop : Option Nat
  deriving DecidableEq, Repr

/-- `l_start` and `l_len` of `struct flock`; a length of 0 reaches to the end of file. -/
def Range.ofLen (start len : Nat) : Range := ⟨start, if len = 0 then none else some (start + len)⟩

def before (n : Nat) : Option Nat → Bool
  | none => true
  | some stop => n < stop

def Range.overlaps (r s : Range) : Bool := before r.start s.stop && before s.start r.stop

/-- What is left of `r` when `s` is unlocked. -/
def Range.minus (r s : Range) : List Range :=
  if r.overlaps s then
    (if r.start < s.start then [⟨r.start, some s.start⟩] else []) ++
      match s.stop with
      | none => []
      | some stop => if before stop r.stop then [⟨stop, r.stop⟩] else []
  else [r]

structure Lock (φ : Type) where
  file : φ
  type : LockType
  range : Range
  deriving DecidableEq

variable {ι φ : Type} [DecidableEq ι] [DecidableEq φ]

def Lock.conflicts (l m : Lock φ) : Bool :=
  l.file = m.file && l.range.overlaps m.range && (l.type = .write || m.type = .write)

abbrev Locks (ι φ : Type) := List (ι × Lock φ)

namespace Locks

def release (p : ι) (file : φ) (range : Range) (locks : Locks ι φ) : Locks ι φ :=
  locks.flatMap fun (q, l) =>
    if q = p ∧ l.file = file then (l.range.minus range).map fun r =>
      (q, { l with range := r }) else [(q, l)]

/-- A granted request replaces what the process held on the range. -/
def acquire (p : ι) (l : Lock φ) (locks : Locks ι φ) : Locks ι φ :=
  (p, l) :: release p l.file l.range locks

/-- A request waits while another process holds a conflicting lock. -/
def blocked (p : ι) (l : Lock φ) (locks : Locks ι φ) : Bool :=
  locks.any fun (q, m) => q ≠ p && l.conflicts m

/-- `close` drops the locks of the process on the file. -/
def releaseFile (p : ι) (file : φ) (locks : Locks ι φ) : Locks ι φ :=
  locks.filter fun (q, l) => !(q = p && l.file = file)

/-- The end of a process drops all its locks. -/
def releaseAll (p : ι) (locks : Locks ι φ) : Locks ι φ := locks.filter fun (q, _) => q ≠ p

/-- No two processes hold conflicting locks. -/
def Consistent (locks : Locks ι φ) : Prop :=
  ∀ p q l m, (p, l) ∈ locks → (q, m) ∈ locks → p ≠ q → l.conflicts m = false

end Locks

/-! ## Ranges -/

theorem Range.overlaps_comm (r s : Range) : r.overlaps s = s.overlaps r := by
  simp [Range.overlaps, Bool.and_comm]

theorem Lock.conflicts_comm (l m : Lock φ) : l.conflicts m = m.conflicts l := by
  rw [Lock.conflicts, Lock.conflicts, Range.overlaps_comm, Bool.or_comm]
  by_cases same : l.file = m.file <;> simp [same, eq_comm]

theorem Range.ofLen_overlaps_self (start len : Nat) :
    (Range.ofLen start len).overlaps (Range.ofLen start len) := by
  unfold Range.ofLen Range.overlaps before
  split <;> simp_all
  omega

/-- What is left of a range touches only what the range touched. -/
theorem Range.overlaps_of_mem_minus {r s piece t : Range} (left : piece ∈ r.minus s)
    (touches : piece.overlaps t = true) : r.overlaps t = true := by
  unfold Range.minus at left
  split at left
  case isFalse => rwa [List.mem_singleton.mp left] at touches
  case isTrue both =>
    simp only [Range.overlaps, Bool.and_eq_true] at both touches ⊢
    rcases List.mem_append.mp left with left | left
    · split at left
      · rw [List.mem_singleton.mp left] at touches
        refine ⟨touches.1, ?_⟩
        have inside := touches.2
        have cut := both.2
        unfold before at inside cut ⊢
        split <;> simp_all
        omega
      · simp at left
    · cases stops : s.stop with
      | none => simp [stops] at left
      | some stop =>
        simp only [stops] at left
        split at left
        · rw [List.mem_singleton.mp left] at touches
          refine ⟨?_, touches.2⟩
          have after := touches.1
          have starts := both.1
          rw [stops] at starts
          unfold before at after starts ⊢
          split <;> simp_all
          omega
        · simp at left

theorem Range.minus_self {r : Range} (inhabited : r.overlaps r = true) : r.minus r = [] := by
  unfold Range.minus
  rw [if_pos inhabited, if_neg (Nat.lt_irrefl _), List.nil_append]
  cases stops : r.stop with
  | none => rfl
  | some stop => simp [before]

theorem Range.minus_of_disjoint {r s : Range} (apart : r.overlaps s = false) : r.minus s = [r] := by
  simp [Range.minus, apart]

/-! ## The table -/

namespace Locks

theorem mem_release_other {p q : ι} {file : φ} {range : Range} {locks : Locks ι φ} {l : Lock φ}
    (other : q ≠ p) :
    (q, l) ∈ release p file range locks ↔ (q, l) ∈ locks := by
  unfold release
  rw [List.mem_flatMap]
  constructor
  · rintro ⟨⟨q', l'⟩, held, member⟩
    dsimp only at member
    split at member
    · obtain ⟨r, _, same⟩ := List.mem_map.mp member
      simp only [Prod.mk.injEq] at same
      simp_all
    · simp_all
  · intro held
    exact ⟨(q, l), held, by simp [other]⟩

/-- A lock in the table after a release is what is left of one that was there before. -/
theorem of_mem_release {p q : ι} {file : φ} {range : Range} {locks : Locks ι φ} {l : Lock φ}
    (held : (q, l) ∈ release p file range locks) :
    ∃ m, (q, m) ∈ locks ∧ m.file = l.file ∧ m.type = l.type ∧ ∀ t, l.range.overlaps t = true →
      m.range.overlaps t = true := by
  unfold release at held
  obtain ⟨⟨q', m⟩, before, member⟩ := List.mem_flatMap.mp held
  dsimp only at member
  split at member
  · obtain ⟨r, left, same⟩ := List.mem_map.mp member
    simp only [Prod.mk.injEq] at same
    obtain ⟨rfl, rfl⟩ := same
    exact ⟨m, before, rfl, rfl, fun t => Range.overlaps_of_mem_minus left⟩
  · obtain ⟨rfl, rfl⟩ : q = q' ∧ l = m := by simpa using member
    exact ⟨l, before, rfl, rfl, fun _ touches => touches⟩

/-- Releasing a range that every lock of the process either misses or equals drops exactly the equal
ones. -/
theorem mem_release_self {p : ι} {file : φ} {range : Range} {locks : Locks ι φ} {l : Lock φ}
    (inhabited : range.overlaps range = true)
    (whole : ∀ m, (p, m) ∈ locks → m.file = file → m.range.overlaps range = true →
    m.range = range) :
    (p, l) ∈ release p file range locks ↔ (p, l) ∈ locks ∧ ¬(l.file = file ∧ l.range = range) := by
  unfold release
  rw [List.mem_flatMap]
  constructor
  · rintro ⟨⟨q, m⟩, held, member⟩
    dsimp only at member
    split at member
    next own =>
      obtain ⟨rfl, inFile⟩ := own
      obtain ⟨r, left, same⟩ := List.mem_map.mp member
      by_cases touch : m.range.overlaps range = true
      · rw [whole m held inFile touch, Range.minus_self inhabited] at left
        simp at left
      · rw [Range.minus_of_disjoint (by simpa using touch)] at left
        obtain rfl : r = m.range := by simpa using left
        obtain rfl : m = l := by simpa using same
        refine ⟨held, fun same => touch ?_⟩
        rw [same.2]
        exact inhabited
    next other =>
      obtain ⟨rfl, rfl⟩ : p = q ∧ l = m := by simpa using member
      exact ⟨held, fun same => other ⟨rfl, same.1⟩⟩
  · rintro ⟨held, kept⟩
    refine ⟨(p, l), held, ?_⟩
    dsimp only
    split
    next own =>
      have apart : l.range.overlaps range = false := by
        by_contra touch
        exact kept ⟨own.2, whole l held own.2 (by simpa using touch)⟩
      simp [Range.minus_of_disjoint apart]
    next => simp

theorem not_blocked {p : ι} {l : Lock φ} {locks : Locks ι φ} :
    blocked p l locks = false ↔ ∀ q m, (q, m) ∈ locks → q ≠ p → l.conflicts m = false := by
  simp [blocked, List.any_eq_false]

theorem blocked_iff {p : ι} {l : Lock φ} {locks : Locks ι φ} :
    blocked p l locks = true ↔ ∃ q m, (q, m) ∈ locks ∧ q ≠ p ∧ l.conflicts m = true := by
  simp [blocked, List.any_eq_true]

private theorem conflicts_of_covers {l l' m : Lock φ} (file : l'.file = l.file)
    (type : l'.type = l.type)
    (covers : ∀ t, l.range.overlaps t = true → l'.range.overlaps t = true)
    (conflict : l.conflicts m = true) :
    l'.conflicts m = true := by
  simp only [Lock.conflicts, Bool.and_eq_true] at conflict ⊢
  rw [file, type]
  exact ⟨⟨conflict.1.1, covers _ conflict.1.2⟩, conflict.2⟩

theorem Consistent.release {locks : Locks ι φ} (consistent : Consistent locks) (p : ι) (file : φ)
    (range : Range) :
    Consistent (release p file range locks) := by
  intro q r l m heldL heldM different
  obtain ⟨l', beforeL, fileL, typeL, coversL⟩ := of_mem_release heldL
  obtain ⟨m', beforeM, fileM, typeM, coversM⟩ := of_mem_release heldM
  by_contra conflict
  rw [Bool.not_eq_false] at conflict
  have first := conflicts_of_covers fileL typeL coversL conflict
  rw [Lock.conflicts_comm] at first
  have second := conflicts_of_covers fileM typeM coversM first
  rw [Lock.conflicts_comm, consistent q r l' m' beforeL beforeM different] at second
  cases second

theorem Consistent.acquire {locks : Locks ι φ} (consistent : Consistent locks) {p : ι} {l : Lock φ}
    (granted : blocked p l locks = false) : Consistent (acquire p l locks) := by
  rw [not_blocked] at granted
  have fresh : ∀ q m, (q, m) ∈ Locks.release p l.file l.range locks → q ≠ p →
      l.conflicts m = false := by
    intro q m held other
    exact granted q m ((mem_release_other other).mp held) other
  intro q r m m' heldM heldM' different
  rcases List.mem_cons.mp heldM with new | old <;> rcases List.mem_cons.mp heldM' with new' | old'
  · cases new; cases new'; exact absurd rfl different
  · cases new
    exact fresh r m' old' different.symm
  · cases new'
    rw [Lock.conflicts_comm]
    exact fresh q m old different
  · exact consistent.release p l.file l.range q r m m' old old' different

end Locks

end Apue.Base
