import Apue.Db.Acquire
import Apue.Db.Lists

/-! # The representation invariant

What the two files look like between two operations.  `DbRep` says it of the bytes alone; the state
in which the proofs about the operations start is built from it, and a state in which no process
holds a lock gives it back.
-/

namespace Apue.Db

open Apue.Base St

/-- The index records and the lists they are on; `lost` has the records a process left on no
list. -/
structure Layout where
  img : Image
  chain : Nat → List Nat
  free : List Nat
  lost : List Nat

namespace Layout

/-- The records of all lists, one list after the other. -/
def offsets (d : Layout) : List Nat := (List.range nhashDef).flatMap d.chain ++ d.free ++ d.lost

/-- The data of a record, if it has the key. -/
def dataFor (d : Layout) (key : Bytes) (x : Nat) : Option Bytes :=
  (d.img.entryAt x).bind fun e => if e.key = key then some e.data else none

/-- The bindings of the keys. -/
def map (d : Layout) : Map := fun key => (d.chain (dbHash nhashDef key)).findSome? (d.dataFor key)

end Layout

/-- The representation invariant: the index file is the table and then well-formed records, each of
which is on exactly one list, once; the chains have the records whose keys hash there, with no key
twice, and the free list has blank ones; the data records are inside the data file, ended by a
newline, and apart from each other. -/
structure DbRep (idx dat : Bytes) (d : Layout) : Prop where
  wellFormed : d.img.Ok
  index : idx = d.img.bytes
  chains : ∀ h < nhashDef, Linked d.img.ptrAt (chainOff h) (d.chain h)
  freeList : Linked d.img.ptrAt freeOff d.free
  once : d.offsets.Nodup
  every : ∀ x, (d.img.entryAt x).isSome ↔ x ∈ d.offsets
  hashed : ∀ h < nhashDef, ∀ x ∈ d.chain h, ∀ e, d.img.entryAt x = some e →
    dbHash nhashDef e.key = h
  distinct : ∀ h < nhashDef, ∀ x ∈ d.chain h, ∀ y ∈ d.chain h, ∀ e e', d.img.entryAt x = some e →
    d.img.entryAt y = some e' → e.key = e'.key → x = y
  blank : ∀ x ∈ d.free, ∀ e, d.img.entryAt x = some e → isBlank e.key = true
  regions : ∀ x e, d.img.entryAt x = some e → HasAt dat e.doff (e.data ++ [newline])
  apart : ∀ x y e e', x ≠ y → d.img.entryAt x = some e → d.img.entryAt y = some e' →
    e.doff + e.dlen ≤ e'.doff ∨ e'.doff + e'.dlen ≤ e.doff

variable {idx dat : Bytes} {d : Layout} {ι : Type}

namespace Layout

theorem mem_offsets {x : Nat} :
    x ∈ d.offsets ↔ (∃ h < nhashDef, x ∈ d.chain h) ∨ x ∈ d.free ∨ x ∈ d.lost := by
  simp only [offsets, List.mem_append, List.mem_flatMap, List.mem_range, or_assoc]

/-- Who owns what, between two operations. -/
def members (d : Layout) : Owner ι → List Nat
  | .at (.chain h) => if h < nhashDef then d.chain h else []
  | .at .free => d.free
  | .lost => d.lost
  | _ => []

theorem members_chain {h : Nat} (real : h < nhashDef) :
    d.members (.at (.chain h) : Owner ι) = d.chain h := if_pos real

theorem mem_members {x : Nat} {o : Owner ι} (member : x ∈ d.members o) :
    (∃ h < nhashDef, o = .at (.chain h) ∧ x ∈ d.chain h) ∨ (o = .at .free ∧ x ∈ d.free) ∨
      (o = .lost ∧ x ∈ d.lost) := by
  rcases o with (h | _ | _ | _) | p | _
  · by_cases real : h < nhashDef
    · rw [members_chain real] at member
      exact .inl ⟨h, real, rfl, member⟩
    · simp [members, real] at member
  · exact .inr (.inl ⟨rfl, member⟩)
  · cases member
  · cases member
  · cases member
  · exact .inr (.inr ⟨rfl, member⟩)

theorem offsets_iff {x : Nat} : x ∈ d.offsets ↔ ∃ o : Owner ι, x ∈ d.members o := by
  rw [mem_offsets]
  constructor
  · rintro (⟨h, real, member⟩ | member | member)
    · exact ⟨.at (.chain h), by rw [members_chain real]; exact member⟩
    · exact ⟨.at .free, member⟩
    · exact ⟨.lost, member⟩
  · rintro ⟨o, member⟩
    rcases mem_members member with ⟨h, real, -, member⟩ | ⟨-, member⟩ | ⟨-, member⟩
    · exact .inl ⟨h, real, member⟩
    · exact .inr (.inl member)
    · exact .inr (.inr member)

/-- The state between two operations. -/
def state (d : Layout) (w : World ι File) (status : ι → Status Op Res) : St ι :=
  ⟨w, d.img, d.members, fun _ => none, ⟨d.map, status⟩⟩

end Layout

/-- The last record ends the file. -/
theorem Image.last (img : Image) :
    img.size = recordsOff ∨ ∃ x e, img.entryAt x = some e ∧ img.size = x + 11 + e.text.length := by
  obtain ⟨heads, recs⟩ := img
  rcases List.eq_nil_or_concat recs with rfl | ⟨before, e, rfl⟩
  · exact .inl (by simp [Image.size, tiles])
  · rw [List.concat_eq_append]
    let img : Image := ⟨heads, before⟩
    exact .inr ⟨img.size, e, by rw [show (⟨heads, before ++ [e]⟩ : Image) = img.append e from rfl, Image.entryAt_append, if_pos rfl],
      img.append_size⟩

namespace DbRep

variable (rep : DbRep idx dat d)
include rep

/-- The lists are apart: an element is on one of them only. -/
theorem one {x : Nat} {o o' : Owner ι} (member : x ∈ d.members o) (member' : x ∈ d.members o') :
    o = o' := by
  have nodup := rep.once
  rw [Layout.offsets, List.nodup_append', List.nodup_append', List.nodup_flatMap] at nodup
  obtain ⟨⟨⟨-, chains⟩, -, chainsFree⟩, -, restLost⟩ := nodup
  have inChains {h : Nat} (real : h < nhashDef) (member : x ∈ d.chain h) :
      x ∈ (List.range nhashDef).flatMap d.chain :=
    List.mem_flatMap.2 ⟨h, List.mem_range.2 real, member⟩
  have apart {h k : Nat} (less : h < k) (real : k < nhashDef) (member : x ∈ d.chain h) :
      x ∉ d.chain k := by
    have := List.pairwise_iff_getElem.1 chains h k (by simp; omega) (by simpa using real) less
    rw [List.getElem_range, List.getElem_range] at this
    exact fun member' => this member member'
  rcases Layout.mem_members member with ⟨h, real, rfl, here⟩ | ⟨rfl, here⟩ | ⟨rfl, here⟩ <;>
    rcases Layout.mem_members member' with ⟨k, real', rfl, there⟩ | ⟨rfl, there⟩ | ⟨rfl, there⟩
  · rcases Nat.lt_trichotomy h k with less | same | less
    · exact absurd there (apart less real' here)
    · rw [same]
    · exact absurd here (apart less real there)
  · exact absurd there (chainsFree (inChains real here))
  · exact absurd there (restLost (List.mem_append_left _ (inChains real here)))
  · exact absurd here (chainsFree (inChains real' there))
  · rfl
  · exact absurd there (restLost (List.mem_append_right _ here))
  · exact absurd here (restLost (List.mem_append_left _ (inChains real' there)))
  · exact absurd here (restLost (List.mem_append_right _ there))
  · rfl

theorem members_nodup (o : Owner ι) : (d.members o).Nodup := by
  have nodup := rep.once
  rw [Layout.offsets, List.nodup_append', List.nodup_append', List.nodup_flatMap] at nodup
  obtain ⟨⟨⟨each, -⟩, free, -⟩, lost, -⟩ := nodup
  rcases o with (h | _ | _ | _) | p | _
  · unfold Layout.members
    dsimp only
    split
    case isTrue real => exact each h (List.mem_range.2 real)
    case isFalse => exact List.nodup_nil
  · exact free
  · exact List.nodup_nil
  · exact List.nodup_nil
  · exact List.nodup_nil
  · exact lost

theorem record {h x : Nat} (real : h < nhashDef) (member : x ∈ d.chain h) :
    ∃ e, d.img.entryAt x = some e :=
  Option.isSome_iff_exists.1 ((rep.every x).2 (Layout.mem_offsets.2 (.inl ⟨h, real, member⟩)))

theorem freeRecord {x : Nat} (member : x ∈ d.free) : ∃ e, d.img.entryAt x = some e :=
  Option.isSome_iff_exists.1 ((rep.every x).2 (Layout.mem_offsets.2 (.inr (.inl member))))

/-- The offsets of records on lists stand in pointers, which bounds the size of the file. -/
theorem size_le (none : d.lost = []) : d.img.size ≤ ptrMax + 11 + idxlenMax := by
  rcases d.img.last with size | ⟨x, e, found, size⟩
  · rw [size]
    decide
  · have short := (rep.wellFormed.entry found).textMax
    suffices x ≤ ptrMax by omega
    have member := (rep.every x).1 (by rw [found]; rfl)
    rw [Layout.mem_offsets, none] at member
    rcases member with ⟨h, real, member⟩ | member | member
    · obtain ⟨cell, pointed⟩ := (rep.chains h real).pointed member
      exact rep.wellFormed.ptrAt_le pointed
    · obtain ⟨cell, pointed⟩ := rep.freeList.pointed member
      exact rep.wellFormed.ptrAt_le pointed
    · cases member

/-- A binding is a record on the chain of its key. -/
theorem map_iff {key data : Bytes} : d.map key = some data ↔
    ∃ x ∈ d.chain (dbHash nhashDef key), ∃ e, d.img.entryAt x = some e ∧ e.key = key ∧
      e.data = data := by
  have isData {x : Nat} : d.dataFor key x = some data ↔ ∃ e, d.img.entryAt x = some e ∧
      e.key = key ∧ e.data = data := by
    rw [Layout.dataFor, Option.bind_eq_some_iff]
    simp
  constructor
  · intro bound
    obtain ⟨x, member, found⟩ := List.exists_of_findSome?_eq_some bound
    exact ⟨x, member, isData.1 found⟩
  · rintro ⟨x, member, e, found, same, isD⟩
    cases bound : d.map key with
    | none =>
      have := List.findSome?_eq_none_iff.1 bound x member
      rw [isData.2 ⟨e, found, same, isD⟩] at this
      cases this
    | some other =>
      obtain ⟨y, memberY, foundY⟩ := List.exists_of_findSome?_eq_some bound
      rw [Layout.dataFor, Option.bind_eq_some_iff] at foundY
      obtain ⟨e', found', isOther⟩ := foundY
      split at isOther
      case isTrue same' =>
        have here := rep.distinct _ (dbHash_lt key) x member y memberY e e' found found'
          (same.trans same'.symm)
        subst here
        rw [found] at found'
        cases found'
        rw [← isD]
        exact isOther.symm
      case isFalse => cases isOther

theorem chainOk {σ : St ι} (img : σ.img = d.img) (members : σ.members = d.members) {h : Nat}
    (real : h < nhashDef) :
    ChainOk σ h d.map := by
  have chain : σ.chain h = d.chain h := by rw [St.chain, members, Layout.members_chain real]
  refine ⟨?_, ?_, fun x member => ?_, fun {x y e e'} member member' found found' => ?_,
    fun {key} hash data => ?_⟩
  · rw [img, chain]
    exact rep.chains h real
  · rw [St.chain, members]
    exact rep.members_nodup _
  · rw [chain] at member
    obtain ⟨e, found⟩ := rep.record real member
    exact ⟨e, by rw [img, found], rep.hashed h real x member e found⟩
  · rw [chain] at member member'
    rw [img] at found found'
    exact rep.distinct h real x member y member' e e' found found'
  · rw [chain, img, ← hash]
    exact rep.map_iff

theorem freeOk {σ : St ι} (img : σ.img = d.img) (members : σ.members = d.members) : FreeOk σ := by
  have free : σ.free = d.free := by rw [St.free, members]; rfl
  refine ⟨?_, ?_, fun x member => ?_⟩
  · rw [img, free]
    exact rep.freeList
  · rw [St.free, members]
    exact rep.members_nodup _
  · rw [free] at member
    obtain ⟨e, found⟩ := rep.freeRecord member
    exact ⟨e, by rw [img, found], rep.blank x member e found⟩

end DbRep

/-- The files of a database are a state in which the operations can start. -/
theorem DbRep.coherent {w : World ι File} (rep : DbRep (w.bytes .idx) (w.bytes .dat) d)
    (unlocked : w.locks = [])
    {room : Nat} (fits : d.img.size ≤ room) (status : ι → Status Op Res) :
    Coherent room (d.state w status) where
  img := rep.wellFormed
  idx := rep.index
  room := fits
  stored := by
    refine ⟨fun {a doff data} extent => ?_,
      fun {a b doff doff' s s'} different extent extent' => ?_⟩
    · cases a with
      | entry x =>
        obtain ⟨e, found, same⟩ := Option.map_eq_some_iff.1 extent
        cases same
        exact rep.regions x e found
      | proc p => cases extent
    · cases a with
      | proc p => cases extent
      | entry x =>
        cases b with
        | proc p => cases extent'
        | entry y =>
          obtain ⟨e, found, same⟩ := Option.map_eq_some_iff.1 extent
          obtain ⟨e', found', same'⟩ := Option.map_eq_some_iff.1 extent'
          cases same
          cases same'
          exact rep.apart x y e e' (fun same => different (by rw [same])) found found'
  sorted := by
    refine ⟨fun x => (rep.every x).trans Layout.offsets_iff, rep.one, rep.members_nodup,
      fun {x place} member => ?_⟩
    rcases Layout.mem_members member with ⟨h, real, same, -⟩ | ⟨same, -⟩ | ⟨same, -⟩
    · cases same
      exact .inr ⟨h, real, rfl⟩
    · cases same
      exact .inl rfl
    · cases same
  consistent := by
    intro p q l l' held
    rw [show (d.state w status).w.locks = [] from unlocked] at held
    cases held
  places held := by
    rw [show (d.state w status).w.locks = [] from unlocked] at held
    cases held
  chain h real := by
    have ok := rep.chainOk (σ := d.state w status) rfl rfl real
    refine ⟨fun {x e} member found => ?_, fun _ => ok, fun {q x e} held => ?_⟩
    · obtain ⟨e', found', hash⟩ := ok.entries x member
      rw [found] at found'
      cases found'
      exact hash
    · rw [St.Holds, show (d.state w status).w.locks = [] from unlocked] at held
      cases held
  free := ⟨fun {x e} member found => rep.blank x member e found, fun _ => rep.freeOk rfl rfl⟩
  priv p := ⟨fun _ => ⟨rfl, rfl⟩, fun {x e} member => by cases member⟩

/-- The layout of a new database. -/
def Layout.empty : Layout := ⟨⟨List.replicate (nhashDef + 1) 0, []⟩, fun _ => [], [], []⟩

theorem dbRep_empty : DbRep emptyTable [] Layout.empty := by
  have noRecord (x : Nat) : Layout.empty.img.entryAt x = none := by
    simp [Layout.empty, Image.entryAt, tileAt]
  have noOffset (x : Nat) : x ∉ Layout.empty.offsets := by
    simp [Layout.mem_offsets, Layout.empty]
  have slot (i : Nat) (inside : i < nhashDef + 1) :
      Layout.empty.img.ptrAt (i * ptrSz) = some 0 := by
    rw [Image.ptrAt_slot inside]
    simp only [Layout.empty, List.getElem?_replicate]
    rw [if_pos inside]
  refine
    { wellFormed := ⟨List.length_replicate, fun v member => ?_, fun e member => by cases member⟩
      index := ?_
      chains := fun h real => ?_
      freeList := slot 0 (by decide)
      once := ?_
      every := fun x => by simp [noRecord, noOffset]
      hashed := fun _ _ x member => by cases member
      distinct := fun _ _ x member => by cases member
      blank := fun x member => by cases member
      regions := fun x e found => by rw [noRecord] at found; cases found
      apart := fun x y e e' _ found => by rw [noRecord] at found; cases found }
  · rw [List.eq_of_mem_replicate member]
    exact Nat.zero_le _
  · have table : tiles encPtr (List.replicate (nhashDef + 1) 0) =
        (List.replicate (nhashDef + 1) (encPtr 0)).flatten := by
      rw [tiles, List.flatMap_def, List.map_replicate]
    rw [Image.bytes, show Layout.empty.img.heads = List.replicate (nhashDef + 1) 0 from rfl, table]
    exact (List.append_nil _).symm
  · have := slot (h + 1) (by omega)
    rwa [show (h + 1) * ptrSz = chainOff h by simp only [chainOff, hashOff, ptrSz]; omega] at this
  · rw [List.eq_nil_iff_forall_not_mem.2 noOffset]
    exact List.nodup_nil

/-- The lists of a state. -/
def St.layout (σ : St ι) : Layout := ⟨σ.img, σ.chain, σ.free, σ.members .lost⟩

theorem St.mem_layout {σ : St ι} (sorted : Sorted σ) {x : Nat} :
    x ∈ σ.layout.offsets ↔ ∃ o, (∀ p, o ≠ .priv p) ∧ x ∈ σ.members o := by
  rw [Layout.mem_offsets]
  constructor
  · rintro (⟨h, -, member⟩ | member | member)
    · exact ⟨_, by simp, member⟩
    · exact ⟨_, by simp, member⟩
    · exact ⟨_, by simp, member⟩
  · rintro ⟨place | p | _, shared, member⟩
    · rcases sorted.listed member with rfl | ⟨h, real, rfl⟩
      · exact .inr (.inl member)
      · exact .inl ⟨h, real, member⟩
    · exact absurd rfl (shared p)
    · exact .inr (.inr member)

theorem St.layout_nodup {σ : St ι} (sorted : Sorted σ) : σ.layout.offsets.Nodup := by
  rw [Layout.offsets, List.nodup_append', List.nodup_append', List.nodup_flatMap]
  refine ⟨⟨⟨fun h _ => sorted.nodup _, ?_⟩, sorted.nodup _, ?_⟩, sorted.nodup _, ?_⟩
  · refine (List.nodup_range (n := nhashDef)).imp fun {h k} different x member member' => ?_
    cases sorted.one (show x ∈ σ.members (.at (.chain h)) from member) (show x ∈
      σ.members (.at (.chain k)) from member')
    exact different rfl
  · intro x member member'
    obtain ⟨h, -, member⟩ := List.mem_flatMap.1 member
    cases sorted.one (show x ∈ σ.members (.at (.chain h)) from member) (show x ∈
      σ.members (.at .free) from member')
  · intro x member member'
    rcases List.mem_append.1 member with member | member
    · obtain ⟨h, -, member⟩ := List.mem_flatMap.1 member
      cases sorted.one (show x ∈ σ.members (.at (.chain h)) from member) (show x ∈
        σ.members .lost from member')
    · cases sorted.one (show x ∈ σ.members (.at .free) from member) (show x ∈
        σ.members .lost from member')

/-- With the lists in order and the other records lost, the files are those of a database with the
bindings of the chains. -/
theorem Coherent.rep_of {room : Nat} {σ : St ι} (inv : Coherent room σ) {m : Map} {lost : List Nat}
    (chain : ∀ h < nhashDef, ChainOk σ h m) (free : FreeOk σ)
    (once : (⟨σ.img, σ.chain, σ.free, lost⟩ : Layout).offsets.Nodup)
    (every : ∀ x, x ∈ (⟨σ.img, σ.chain, σ.free, lost⟩ : Layout).offsets ↔ ∃ o, x ∈ σ.members o) :
    DbRep (σ.w.bytes .idx) (σ.w.bytes .dat) ⟨σ.img, σ.chain, σ.free, lost⟩ ∧
      (⟨σ.img, σ.chain, σ.free, lost⟩ : Layout).map = m := by
  have rep : DbRep (σ.w.bytes .idx) (σ.w.bytes .dat) ⟨σ.img, σ.chain, σ.free, lost⟩ :=
    { wellFormed := inv.img
      index := inv.idx
      chains := fun h real => (chain h real).linked
      freeList := free.linked
      once := once
      every := fun x => (inv.sorted.owned x).trans (every x).symm
      hashed := fun h real x member e found => (inv.chain h real).hashed member found
      distinct := fun h real x member y member' e e' found found' => (chain h real).distinct member
        member' found found'
      blank := fun x member e found => inv.free.blank member found
      regions := fun x e found => inv.stored.there (a := .entry x) (by
        rw [St.extent, show σ.img.entryAt x = some e from found]
        rfl)
      apart := fun x y e e' different found found' => inv.stored.apart (a := .entry x)
        (b := .entry y)
        (fun same => different (Holder.entry.inj same))
          (by rw [St.extent, show σ.img.entryAt x = some e from found]; rfl)
        (by rw [St.extent, show σ.img.entryAt y = some e' from found']; rfl) }
  refine ⟨rep, funext fun key => ?_⟩
  have same (data : Bytes) : (⟨σ.img, σ.chain, σ.free, lost⟩ : Layout).map key = some data ↔
      m key = some data :=
    rep.map_iff.trans ((chain _ (dbHash_lt key)).bound rfl data).symm
  cases bound : m key with
  | some data => exact (same data).2 bound
  | none =>
    cases other : (⟨σ.img, σ.chain, σ.free, lost⟩ : Layout).map key with
    | none => rfl
    | some data =>
      rw [(same data).1 other] at bound
      cases bound

/-- When no process holds a lock, the files are those of a database with the bindings of the map. -/
theorem Coherent.rep {room : Nat} {σ : St ι} (inv : Coherent room σ)
    (unheld : ∀ p l, (p, l) ∉ σ.w.locks) :
    DbRep (σ.w.bytes .idx) (σ.w.bytes .dat) σ.layout ∧ σ.layout.map = σ.map := by
  have own (p : ι) : σ.members (.priv p) = [] := ((inv.priv p).still fun h _ => unheld p _).1
  refine inv.rep_of (fun h real => (inv.chain h real).still fun p => unheld p _)
    (inv.free.still fun p => unheld p _)
    (St.layout_nodup inv.sorted) fun x => (St.mem_layout inv.sorted).trans ⟨?_, ?_⟩
  · rintro ⟨o, -, member⟩
    exact ⟨o, member⟩
  · rintro ⟨o, member⟩
    refine ⟨o, ?_, member⟩
    rintro p rfl
    rw [own p] at member
    cases member

end Apue.Db
