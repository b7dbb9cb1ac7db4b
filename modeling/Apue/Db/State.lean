import Apue.Base.Linearizable
import Apue.Base.Linked
import Apue.Db.Image
import Apue.Db.System

/-! # Who may touch what

The discipline the processes follow.  Every index record belongs to the list it is on (a chain or
the free list) or, while it is on none, to the process that is moving it; the data record belongs
with its index record, and data appended but not yet indexed to the process that appended it.  The
holder of the write lock of a list may change the list and its records, a reader relies on them, and
nobody else looks at them; only `db_nextrec` reads records it has no lock for, and relies on less:
that records stay where they are, and that nobody deletes while it holds the free list.

`map` is what the database means: the binding of each key.  It changes when the chain is unlocked.
-/

namespace Apue.Db

open Apue.Base

/-! ## The map -/

abbrev Map := Bytes → Option Bytes

/-- What each operation of the library does to a map from keys to data, and returns. -/
def mapStore (map : Map) (key data : Bytes) : Flag → Int × Map
  | .insert => if (map key).isSome then (1, map) else (0, Function.update map key (some data))
  | .replace => if (map key).isSome then (0, Function.update map key (some data)) else (-1, map)
  | .store => (0, Function.update map key (some data))

def mapDelete (map : Map) (key : Bytes) : Int × Map :=
  if (map key).isSome then (0, Function.update map key none) else (-1, map)

/-- The operations as effects on the map.  A scan returns a record that is bound or is being stored,
or none. -/
def dbSpec {ι : Type} : Spec ι Map Op Res := fun s op res map' =>
  match op with
  | .fetch key => res = .data (s.value key) ∧ map' = s.value
  | .store key data flag =>
    res = .rc (mapStore s.value key data flag).1 ∧ map' = (mapStore s.value key data flag).2
  | .delete key => res = .rc (mapDelete s.value key).1 ∧ map' = (mapDelete s.value key).2
  | .rewind => res = .rewound ∧ map' = s.value
  | .nextrec =>
    map' = s.value ∧ ∃ record, res = .record record ∧ ∀ key data, record = some (key, data) →
      s.value key = some data ∨ ∃ q flag, s.status q = .pending (.store key data flag)
  | .open _ => False

/-! ## States -/

inductive Owner (ι : Type) where
  | at (place : Place)
  | priv (p : ι)
  /-- Records on no list, left by a process that aborted. -/
  | lost
  deriving DecidableEq

structure St (ι : Type) where
  w : World ι File
  img : Image
  /-- The offsets of the records, by owner; in the order of the list. -/
  members : Owner ι → List Nat
  /-- Data a process has appended and not yet indexed. -/
  fresh : ι → Option (Nat × Bytes)
  obj : Atomic ι Map Op Res

variable {ι : Type}

namespace St

abbrev map (σ : St ι) : Map := σ.obj.value

abbrev dat (σ : St ι) : Bytes := σ.w.bytes .dat

abbrev chain (σ : St ι) (h : Nat) : List Nat := σ.members (.at (.chain h))

abbrev free (σ : St ι) : List Nat := σ.members (.at .free)

def Holds (σ : St ι) (p : ι) (place : Place) (type : LockType) : Prop :=
  (p, place.lock type) ∈ σ.w.locks

theorem holds_congr {σ σ' : St ι} (locks : σ'.w.locks = σ.w.locks) {p : ι} {place : Place}
    {type : LockType} :
    σ'.Holds p place type ↔ σ.Holds p place type := by rw [Holds, locks, Holds]

/-- The process may read what belongs to the owner. -/
def Reads (σ : St ι) (p : ι) : Owner ι → Prop
  | .at place => ∃ type, σ.Holds p place type
  | .priv q => q = p
  | .lost => False

/-- The process may change what belongs to the owner. -/
def Writes (σ : St ι) (p : ι) : Owner ι → Prop
  | .at place => σ.Holds p place .write
  | .priv q => q = p
  | .lost => False

/-- The list of the owner and its records are the same. -/
structure SameList (σ σ' : St ι) (o : Owner ι) : Prop where
  members : σ'.members o = σ.members o
  entries : ∀ x ∈ σ.members o, σ'.img.entryAt x = σ.img.entryAt x

/-- Nothing that belongs to the owner has changed. -/
def Same (σ σ' : St ι) : Owner ι → Prop
  | .at (.chain h) => SameList σ σ' (.at (.chain h)) ∧
      (h < nhashDef → σ'.img.ptrAt (chainOff h) = σ.img.ptrAt (chainOff h)) ∧
      ∀ key, dbHash nhashDef key = h → σ'.map key = σ.map key
  | .at .free => SameList σ σ' (.at .free) ∧ σ'.img.ptrAt freeOff = σ.img.ptrAt freeOff
  | .at .idxEnd => SameList σ σ' (.at .idxEnd) ∧ σ'.img.size = σ.img.size
  | .at .datEnd => SameList σ σ' (.at .datEnd) ∧ σ'.dat.length = σ.dat.length
  | .priv p => SameList σ σ' (.priv p) ∧ σ'.fresh p = σ.fresh p
  | .lost => SameList σ σ' .lost

/-- Records stay where they are. -/
def Grows (σ σ' : St ι) : Prop :=
  ∀ x e, σ.img.entryAt x = some e → ∃ e', σ'.img.entryAt x = some e' ∧
    e'.text.length = e.text.length

/-- Records with a key that is not blank keep it, and their place for data. -/
def Lasting (σ σ' : St ι) : Prop :=
  ∀ x e, σ.img.entryAt x = some e → isBlank e.key = false →
    ∃ e', σ'.img.entryAt x = some e' ∧ e'.key = e.key ∧ e'.doff = e.doff ∧
      e'.data.length = e.data.length

/-- What stands in the data file: the data of a record, or data not yet indexed. -/
inductive Holder (ι : Type) where
  | entry (x : Nat)
  | proc (p : ι)

def extent (σ : St ι) : Holder ι → Option (Nat × Bytes)
  | .entry x => (σ.img.entryAt x).map fun e => (e.doff, e.data)
  | .proc p => σ.fresh p

end St

/-! ## The invariant -/

/-- A chain that is in order, and holds the bindings of `map`. -/
structure ChainOk (σ : St ι) (h : Nat) (map : Map) : Prop where
  linked : Linked σ.img.ptrAt (chainOff h) (σ.chain h)
  nodup : (σ.chain h).Nodup
  entries : ∀ x ∈ σ.chain h, ∃ e, σ.img.entryAt x = some e ∧ dbHash nhashDef e.key = h
  distinct : ∀ {x y e e'}, x ∈ σ.chain h → y ∈ σ.chain h → σ.img.entryAt x = some e →
    σ.img.entryAt y = some e' →
    e.key = e'.key → x = y
  bound : ∀ {key}, dbHash nhashDef key = h → ∀ data, map key = some data ↔
    ∃ x ∈ σ.chain h, ∃ e, σ.img.entryAt x = some e ∧ e.key = key ∧ e.data = data

/-- The free list in order. -/
structure FreeOk (σ : St ι) : Prop where
  linked : Linked σ.img.ptrAt freeOff σ.free
  nodup : σ.free.Nodup
  entries : ∀ x ∈ σ.free, ∃ e, σ.img.entryAt x = some e ∧ isBlank e.key = true

/-- The store of the record's key and data that `q` is in. -/
def Storing (σ : St ι) (q : ι) (e : Entry) : Prop :=
  ∃ flag, σ.obj.status q = .pending (.store e.key e.data flag)

structure ChainInv (σ : St ι) (h : Nat) : Prop where
  hashed : ∀ {x e}, x ∈ σ.chain h → σ.img.entryAt x = some e → dbHash nhashDef e.key = h
  still : (∀ q, ¬σ.Holds q (.chain h) .write) → ChainOk σ h σ.map
  live : ∀ {q x e}, σ.Holds q (.chain h) .write → x ∈ σ.chain h → σ.img.entryAt x = some e →
    isBlank e.key = false →
    σ.Holds q .free .write ∨ Storing σ q e ∨ σ.map e.key = some e.data

structure FreeInv (σ : St ι) : Prop where
  blank : ∀ {x e}, x ∈ σ.free → σ.img.entryAt x = some e → isBlank e.key = true
  still : (∀ q, ¬σ.Holds q .free .write) → FreeOk σ

structure PrivInv (σ : St ι) (p : ι) : Prop where
  still : (∀ h < nhashDef, ¬σ.Holds p (.chain h) .write) → σ.members (.priv p) = [] ∧
    σ.fresh p = none
  live : ∀ {x e}, x ∈ σ.members (.priv p) → σ.img.entryAt x = some e → isBlank e.key = false →
    Storing σ p e

/-- Every record is on one list, once. -/
structure Sorted (σ : St ι) : Prop where
  owned : ∀ x, (σ.img.entryAt x).isSome ↔ ∃ o, x ∈ σ.members o
  one : ∀ {x o o'}, x ∈ σ.members o → x ∈ σ.members o' → o = o'
  nodup : ∀ o, (σ.members o).Nodup
  listed : ∀ {x place}, x ∈ σ.members (.at place) → place = .free ∨ ∃ h < nhashDef, place = .chain h

/-- The data records: inside the data file, ended by a newline, and apart from each other. -/
structure Stored (σ : St ι) : Prop where
  there : ∀ {a doff data}, σ.extent a = some (doff, data) → HasAt σ.dat doff (data ++ [newline])
  apart : ∀ {a b d d' s s'}, a ≠ b → σ.extent a = some (d, s) → σ.extent b = some (d', s') →
    d + (s.length + 1) ≤ d' ∨ d' + (s'.length + 1) ≤ d

structure Coherent (room : Nat) (σ : St ι) : Prop where
  img : σ.img.Ok
  idx : σ.w.bytes .idx = σ.img.bytes
  room : σ.img.size ≤ room
  stored : Stored σ
  sorted : Sorted σ
  consistent : σ.w.locks.Consistent
  places : ∀ {p l}, (p, l) ∈ σ.w.locks → ∃ (place : Place) (type : LockType), place.Real ∧
    l = place.lock type
  chain : ∀ h < nhashDef, ChainInv σ h
  free : FreeInv σ
  priv : ∀ p, PrivInv σ p

/-! ## Rely and guarantee -/

structure Rely (p : ι) (σ σ' : St ι) : Prop where
  alone : Alone p → σ' = σ
  pos : σ'.w.pos p = σ.w.pos p
  locks : ∀ l, (p, l) ∈ σ'.w.locks ↔ (p, l) ∈ σ.w.locks
  status : σ'.obj.status p = σ.obj.status p
  same : ∀ o, σ.Reads p o → σ.Same σ' o
  grows : σ.Grows σ'
  lasting : (∃ type, σ.Holds p .free type) → σ.Lasting σ'
  lost : σ.Same σ' .lost

structure Guar [DecidableEq ι] (p : ι) (σ σ' : St ι) : Prop where
  pos : ∀ q, q ≠ p → σ'.w.pos q = σ.w.pos q
  locks : ∀ q, q ≠ p → ∀ l, (q, l) ∈ σ'.w.locks ↔ (q, l) ∈ σ.w.locks
  same : ∀ o, ¬σ.Writes p o → σ.Same σ' o
  grows : σ.Grows σ'
  lasting : ¬σ.Holds p .free .write → σ.Lasting σ'
  object : σ'.obj = σ.obj ∨ Atomic.Step (ε := Err) dbSpec σ.obj (.effect p) σ'.obj

namespace St

theorem SameList.refl (σ : St ι) (o : Owner ι) : SameList σ σ o := ⟨rfl, fun _ _ => rfl⟩

theorem SameList.trans {σ σ' σ'' : St ι} {o : Owner ι} (first : SameList σ σ' o)
    (second : SameList σ' σ'' o) :
    SameList σ σ'' o :=
  ⟨second.members.trans first.members, fun x member =>
    (second.entries x (first.members ▸ member)).trans (first.entries x member)⟩

theorem Same.refl (σ : St ι) (o : Owner ι) : σ.Same σ o := by
  have list := SameList.refl σ
  rcases o with (h | _ | _ | _) | p | _
  · exact ⟨list _, fun _ => rfl, fun _ _ => rfl⟩
  · exact ⟨list _, rfl⟩
  · exact ⟨list _, rfl⟩
  · exact ⟨list _, rfl⟩
  · exact ⟨list _, rfl⟩
  · exact list _

theorem Same.trans {σ σ' σ'' : St ι} {o : Owner ι} (first : σ.Same σ' o) (second : σ'.Same σ'' o) :
    σ.Same σ'' o := by
  rcases o with (h | _ | _ | _) | p | _
  · exact ⟨first.1.trans second.1, fun real => (second.2.1 real).trans (first.2.1 real),
        fun key hash =>
      (second.2.2 key hash).trans (first.2.2 key hash)⟩
  · exact ⟨first.1.trans second.1, second.2.trans first.2⟩
  · exact ⟨first.1.trans second.1, second.2.trans first.2⟩
  · exact ⟨first.1.trans second.1, second.2.trans first.2⟩
  · exact ⟨first.1.trans second.1, second.2.trans first.2⟩
  · exact SameList.trans first second

theorem Same.list {σ σ' : St ι} {o : Owner ι} (same : σ.Same σ' o) : SameList σ σ' o := by
  rcases o with (h | _ | _ | _) | p | _
  · exact same.1
  · exact same.1
  · exact same.1
  · exact same.1
  · exact same.1
  · exact same

theorem Grows.refl (σ : St ι) : σ.Grows σ := fun _ e found => ⟨e, found, rfl⟩

theorem Grows.trans {σ σ' σ'' : St ι} (first : σ.Grows σ') (second : σ'.Grows σ'') :
    σ.Grows σ'' := by
  intro x e found
  obtain ⟨e', found', same'⟩ := first x e found
  obtain ⟨e'', found'', same''⟩ := second x e' found'
  exact ⟨e'', found'', same''.trans same'⟩

theorem Lasting.refl (σ : St ι) : σ.Lasting σ := fun _ e found _ => ⟨e, found, rfl, rfl, rfl⟩

theorem Lasting.trans {σ σ' σ'' : St ι} (first : σ.Lasting σ') (second : σ'.Lasting σ'') :
    σ.Lasting σ'' := by
  intro x e found visible
  obtain ⟨e', found', key, doff, len⟩ := first x e found visible
  obtain ⟨e'', found'', key', doff', len'⟩ := second x e' found' (by rw [key]; exact visible)
  exact ⟨e'', found'', key'.trans key, doff'.trans doff, len'.trans len⟩

end St

open St

theorem Rely.reads {p : ι} {σ σ' : St ι} (relied : Rely p σ σ') {o : Owner ι} :
    σ'.Reads p o ↔ σ.Reads p o := by
  rcases o with place | q | _
  · exact exists_congr fun type => relied.locks _
  · exact Iff.rfl
  · exact Iff.rfl

theorem Rely.refl (p : ι) (σ : St ι) : Rely p σ σ :=
  ⟨fun _ => rfl, rfl, fun _ => Iff.rfl, rfl, fun o _ => .refl σ o, .refl σ,
    fun _ => .refl σ, .refl σ _⟩

theorem Rely.trans {p : ι} {σ σ' σ'' : St ι} (first : Rely p σ σ') (second : Rely p σ' σ'') :
    Rely p σ σ'' where
  alone only := (second.alone only).trans (first.alone only)
  pos := second.pos.trans first.pos
  locks l := (second.locks l).trans (first.locks l)
  status := second.status.trans first.status
  same o reads := (first.same o reads).trans (second.same o (first.reads.2 reads))
  grows := first.grows.trans second.grows
  lasting held := by
    obtain ⟨type, held⟩ := held
    exact (first.lasting ⟨type, held⟩).trans (second.lasting ⟨type, (first.locks _).2 held⟩)
  lost := first.lost.trans second.lost

/-- Two processes do not hold a place at once, if one of them to write. -/
theorem Coherent.exclusive {room : Nat} {σ : St ι} (inv : Coherent room σ) {p q : ι} {place : Place}
    {type : LockType}
    (held : σ.Holds p place type) (held' : σ.Holds q place .write) : p = q := by
  by_contra different
  have apart := inv.consistent p q _ _ held held' different
  simp [Place.lock, Lock.conflicts, place.range_inhabited] at apart

theorem Coherent.not_writes {room : Nat} {σ : St ι} (inv : Coherent room σ) {p q : ι}
    (different : p ≠ q) {o : Owner ι}
    (reads : σ.Reads p o) : ¬σ.Writes q o := by
  intro writes
  rcases o with place | r | _
  · obtain ⟨type, held⟩ := reads
    exact different (inv.exclusive held writes)
  · exact different (reads.symm.trans writes)
  · exact reads

theorem Guar.rely [DecidableEq ι] {room : Nat} {p q : ι} {σ σ' : St ι} (inv : Coherent room σ)
    (kept : Guar q σ σ')
    (different : p ≠ q) : Rely p σ σ' where
  alone only := absurd (only q).symm different
  pos := kept.pos p different
  locks := kept.locks p different
  status := by
    rcases kept.object with same | moved
    · rw [same]
    · exact moved.of_effect.1 p different
  same o reads := kept.same o (inv.not_writes different reads)
  grows := kept.grows
  lasting := by
    rintro ⟨type, held⟩
    exact kept.lasting fun held' => different (inv.exclusive held held')
  lost := kept.same .lost id

/-- The discipline, for a bound on the size of the index file and an assumption on the calls. -/
def discipline [DecidableEq ι] (room : Nat) (env : ι → FileCall File → St ι → Prop) :
    Discipline ι (FileSig File) (World ι File) (St ι) where
  kernel := fileKernel
  world := St.w
  inv := Coherent room
  rely := Rely
  guar := Guar
  env := env
  rely_refl := Rely.refl
  rely_trans := Rely.trans
  guar_rely := Guar.rely

end Apue.Db
