import Apue.Db.Model

/-! # The places the library locks

Four kinds of places are locked: the first byte of a chain pointer, the free-list pointer,
everything from the first index record on, and the whole data file.  They do not overlap, so two
locks conflict only on one place.
-/

namespace Apue.Db

open Apue.Base

inductive Place where
  | chain (h : Nat)
  | free
  | idxEnd
  | datEnd
  deriving DecidableEq, Repr

/-- The offset of a chain pointer in the table. -/
abbrev chainOff (h : Nat) : Nat := h * ptrSz + hashOff

/-- The offset of the first index record. -/
abbrev recordsOff : Nat := (nhashDef + 1) * ptrSz + 1

namespace Place

def file : Place → File
  | .datEnd => .dat
  | _ => .idx

def range : Place → Range
  | .chain h => .ofLen (chainOff h) 1
  | .free => .ofLen freeOff 1
  | .idxEnd => .ofLen recordsOff 0
  | .datEnd => .ofLen 0 0

def lock (place : Place) (type : LockType) : Lock File := ⟨place.file, type, place.range⟩

/-- The places of a database: chains are numbered by hash values. -/
def Real : Place → Prop
  | .chain h => h < nhashDef
  | _ => True

theorem chain_real {h : Nat} (real : h < nhashDef) : (Place.chain h).Real := real

theorem free_real : Place.free.Real := trivial

theorem range_inhabited (place : Place) : place.range.overlaps place.range = true := by
  cases place <;> exact Range.ofLen_overlaps_self _ _

/-- Different places have no byte in common. -/
theorem Real.apart {place other : Place} (real : place.Real) (realOther : other.Real)
    (different : place ≠ other)
    (same : place.file = other.file) : place.range.overlaps other.range = false := by
  cases place <;> cases other <;>
    simp [Place.file, Place.range, Place.Real, Range.ofLen, Range.overlaps, before, chainOff,
      recordsOff, freeOff,
      hashOff, ptrSz, nhashDef] at * <;> omega

theorem lock_inj {place other : Place} {type type' : LockType} (real : place.Real)
    (realOther : other.Real)
    (same : place.lock type = other.lock type') : place = other ∧ type = type' := by
  have files : place.file = other.file := congrArg Lock.file same
  have ranges : place.range = other.range := congrArg Lock.range same
  refine ⟨?_, congrArg Lock.type same⟩
  by_contra different
  have overlap := place.range_inhabited
  rw [ranges] at overlap
  have := real.apart realOther different files
  rw [ranges, overlap] at this
  cases this

theorem conflicts_iff {place other : Place} {type type' : LockType} (real : place.Real)
    (realOther : other.Real) :
    (place.lock type).conflicts (other.lock type') = true ↔ place = other ∧
    (type = .write ∨ type' = .write) := by
  constructor
  · intro conflict
    simp only [Lock.conflicts, Bool.and_eq_true, decide_eq_true_eq, Bool.or_eq_true] at conflict
    obtain ⟨⟨files, touch⟩, kinds⟩ := conflict
    refine ⟨?_, kinds⟩
    by_contra different
    exact absurd touch (by rw [show (place.lock type).range = place.range from rfl,
      show (other.lock type').range = other.range from rfl,
        real.apart realOther different files]; decide)
  · rintro ⟨rfl, kinds⟩
    simp only [Lock.conflicts, Bool.and_eq_true, decide_eq_true_eq, Bool.or_eq_true]
    exact ⟨⟨rfl, place.range_inhabited⟩, kinds⟩

end Place

theorem dbHash_lt (key : Bytes) : dbHash nhashDef key < nhashDef := Nat.mod_lt _ (by decide)

/-- The chain a key belongs to. -/
def keyPlace (key : Bytes) : Place := .chain (dbHash nhashDef key)

theorem keyPlace_real (key : Bytes) : (keyPlace key).Real := dbHash_lt key

/-- The handle of a 137-chain database whose current chain pointer is at `chainoff`. -/
structure OnChain (chainoff : Nat) (db : DB) : Prop where
  nhash : db.nhash = nhashDef
  hashoff : db.hashoff = hashOff
  chain : db.chainoff = chainoff

end Apue.Db
