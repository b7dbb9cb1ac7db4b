import Apue.Db.State

/-! # Changes of state

The changes the library makes, one function each: a pointer, a record or a data record rewritten in
place, data or a record appended, a record handed from one owner to another, a lock taken or given
up.  For each of them: what it leaves alone, what it keeps of the invariant, and that it keeps what
the process relies on, which lets a proof carry a change from the state it reasons about to the
state the others have led to.
-/

namespace Apue.Db

open Apue.Base

variable {ι : Type}

namespace St

/-! ## Owners and their lists -/

variable {σ σ' : St ι} {o : Owner ι} {p : ι}

theorem Writes.reads (writes : σ.Writes p o) : σ.Reads p o := by
  rcases o with place | q | _
  · exact ⟨.write, writes⟩
  · exact writes
  · exact writes

theorem SameList.mem (list : SameList σ σ' o) {x : Nat} : x ∈ σ'.members o ↔ x ∈ σ.members o := by
  rw [list.members]

theorem SameList.ptrAt (list : SameList σ σ' o) {x : Nat} (member : x ∈ σ.members o) {e : Entry}
    (found : σ.img.entryAt x = some e) : σ'.img.ptrAt x = σ.img.ptrAt x := by
  rw [Image.ptrAt_record found, Image.ptrAt_record ((list.entries x member).trans found)]

end St

open St

variable {σ σ' : St ι} {h : Nat} {m : Map} {p : ι}

theorem ChainOk.congr (ok : ChainOk σ h m) (list : SameList σ σ' (.at (.chain h)))
    (head : σ'.img.ptrAt (chainOff h) = σ.img.ptrAt (chainOff h)) : ChainOk σ' h m := by
  have lookup {x : Nat} (member : x ∈ σ.chain h) : σ'.img.entryAt x = σ.img.entryAt x :=
    list.entries x member
  have members : σ'.chain h = σ.chain h := list.members
  constructor
  · rw [members]
    refine ok.linked.congr head fun x member => ?_
    obtain ⟨e, found, _⟩ := ok.entries x member
    exact list.ptrAt member found
  · rw [members]
    exact ok.nodup
  · intro x member
    rw [members] at member
    rw [lookup member]
    exact ok.entries x member
  · intro x y e e' memberX memberY foundX foundY
    rw [members] at memberX memberY
    rw [lookup memberX] at foundX
    rw [lookup memberY] at foundY
    exact ok.distinct memberX memberY foundX foundY
  · intro key hash data
    rw [ok.bound hash data, members]
    refine exists_congr fun x => and_congr_right fun member => ?_
    rw [lookup member]

/-- The bindings matter on the keys of the chain. -/
theorem ChainOk.rebind (ok : ChainOk σ h m) {m' : Map}
    (same : ∀ key, dbHash nhashDef key = h → m' key = m key) :
    ChainOk σ h m' :=
  ⟨ok.linked, ok.nodup, ok.entries, ok.distinct,
    fun {key} hash data => by rw [same key hash]; exact ok.bound hash data⟩

theorem FreeOk.congr (ok : FreeOk σ) (list : SameList σ σ' (.at .free))
    (head : σ'.img.ptrAt freeOff = σ.img.ptrAt freeOff) : FreeOk σ' := by
  have members : σ'.free = σ.free := list.members
  constructor
  · rw [members]
    refine ok.linked.congr head fun x member => ?_
    obtain ⟨e, found, _⟩ := ok.entries x member
    exact list.ptrAt member found
  · rw [members]
    exact ok.nodup
  · intro x member
    rw [members] at member
    rw [list.entries x member]
    exact ok.entries x member

theorem ChainInv.congr (inv : ChainInv σ h) (real : h < nhashDef)
    (same : σ.Same σ' (.at (.chain h)))
    (locks : σ'.w.locks = σ.w.locks) (obj : σ'.obj = σ.obj) : ChainInv σ' h := by
  obtain ⟨list, head, _⟩ := same
  constructor
  · intro x e member found
    have member' : x ∈ σ.chain h := list.mem.1 member
    rw [list.entries x member'] at found
    exact inv.hashed member' found
  · intro unheld
    rw [St.map, obj]
    exact (inv.still fun q held => unheld q ((St.holds_congr locks).2 held)).congr list (head real)
  · intro q x e held member found visible
    have member' : x ∈ σ.chain h := list.mem.1 member
    rw [list.entries x member'] at found
    rw [St.holds_congr locks, Storing, St.map, obj]
    exact inv.live ((St.holds_congr locks).1 held) member' found visible

theorem FreeInv.congr (inv : FreeInv σ) (same : σ.Same σ' (.at .free))
    (locks : σ'.w.locks = σ.w.locks) : FreeInv σ' := by
  obtain ⟨list, head⟩ := same
  constructor
  · intro x e member found
    have member' : x ∈ σ.free := list.mem.1 member
    rw [list.entries x member'] at found
    exact inv.blank member' found
  · intro unheld
    exact (inv.still fun q held => unheld q ((St.holds_congr locks).2 held)).congr list head

theorem PrivInv.congr (inv : PrivInv σ p) (same : σ.Same σ' (.priv p))
    (locks : σ'.w.locks = σ.w.locks)
    (obj : σ'.obj = σ.obj) : PrivInv σ' p := by
  obtain ⟨list, fresh⟩ := same
  constructor
  · intro unheld
    rw [list.members, fresh]
    exact inv.still fun h real held => unheld h real ((St.holds_congr locks).2 held)
  · intro x e member found visible
    have member' : x ∈ σ.members (.priv p) := list.mem.1 member
    rw [list.entries x member'] at found
    rw [Storing, obj]
    exact inv.live member' found visible

/-! ## Changes by one process that take no lock -/

/-- The change is within what `p` may write. -/
structure Frame (p : ι) (σ σ' : St ι) : Prop where
  pos : ∀ q, q ≠ p → σ'.w.pos q = σ.w.pos q
  locks : σ'.w.locks = σ.w.locks
  obj : σ'.obj = σ.obj
  same : ∀ o, ¬σ.Writes p o → σ.Same σ' o
  grows : σ.Grows σ'
  lasting : ¬σ.Holds p .free .write → σ.Lasting σ'

theorem Frame.writes (frame : Frame p σ σ') {o : Owner ι} : σ'.Writes p o ↔ σ.Writes p o := by
  rcases o with place | q | _
  · simp only [St.Writes, St.Holds, frame.locks]
  · exact Iff.rfl
  · exact Iff.rfl

theorem Frame.trans {σ'' : St ι} (first : Frame p σ σ') (second : Frame p σ' σ'') :
    Frame p σ σ'' where
  pos q other := (second.pos q other).trans (first.pos q other)
  locks := second.locks.trans first.locks
  obj := second.obj.trans first.obj
  same o untouched := (first.same o untouched).trans (second.same o (mt first.writes.1 untouched))
  grows := first.grows.trans second.grows
  lasting unheld := (first.lasting unheld).trans
    (second.lasting fun held => unheld ((St.holds_congr first.locks).1 held))

theorem Frame.guar [DecidableEq ι] (frame : Frame p σ σ') : Guar p σ σ' where
  pos := frame.pos
  locks q _ l := by rw [frame.locks]
  same := frame.same
  grows := frame.grows
  lasting := frame.lasting
  object := .inl frame.obj

/-- What is left to show of the invariant after a change: the files are in order, and so are the
records the process may write. -/
theorem Coherent.change {room : Nat} (inv : Coherent room σ) (frame : Frame p σ σ')
    (img : σ'.img.Ok)
    (idx : σ'.w.bytes .idx = σ'.img.bytes) (fits : σ'.img.size ≤ room) (stored : Stored σ')
    (sorted : Sorted σ')
    (chain : ∀ h < nhashDef, σ.Holds p (.chain h) .write → ChainInv σ' h)
    (free : σ.Holds p .free .write → FreeInv σ') (priv : PrivInv σ' p) : Coherent room σ' where
  img := img
  idx := idx
  room := fits
  stored := stored
  sorted := sorted
  consistent := frame.locks ▸ inv.consistent
  places := frame.locks ▸ inv.places
  chain h real := by
    by_cases held : σ.Holds p (.chain h) .write
    · exact chain h real held
    · exact (inv.chain h real).congr real (frame.same _ held) frame.locks frame.obj
  free := by
    by_cases held : σ.Holds p .free .write
    · exact free held
    · exact inv.free.congr (frame.same _ held) frame.locks
  priv q := by
    by_cases own : q = p
    · exact own ▸ priv
    · exact (inv.priv q).congr (frame.same (.priv q) own) frame.locks frame.obj

/-- A change made to two states keeps what one relies on of the other. -/
theorem Rely.change {τ τ' : St ι} (relied : Rely p σ τ) (function : τ = σ → τ' = σ')
    (pos : τ'.w.pos p = σ'.w.pos p) (locks : σ'.w.locks = σ.w.locks)
    (locks' : τ'.w.locks = τ.w.locks)
    (obj : σ'.obj = σ.obj) (obj' : τ'.obj = τ.obj)
    (same : ∀ o, σ.Reads p o ∨ o = .lost → σ'.Same τ' o)
    (grows : σ'.Grows τ') (lasting : σ.Lasting τ → σ'.Lasting τ') : Rely p σ' τ' where
  alone only := function (relied.alone only)
  pos := pos
  locks l := by
    rw [locks, locks']
    exact relied.locks l
  status := by
    rw [obj, obj']
    exact relied.status
  same o reads := by
    refine same o (.inl ?_)
    rcases o with place | q | _
    · simpa only [St.Reads, St.Holds, locks] using reads
    · exact reads
    · exact reads
  grows := grows
  lasting held := lasting (relied.lasting (by simpa only [St.Holds, locks] using held))
  lost := same .lost (.inr rfl)

/-! ## One record rewritten in place -/

/-- The record at `x` is now `e`; everything else is as before. -/
structure Rewrites (x : Nat) (e : Entry) (σ σ' : St ι) : Prop where
  entry : ∀ y, σ'.img.entryAt y = if y = x then some e else σ.img.entryAt y
  slot : ∀ off < recordsOff, σ'.img.ptrAt off = σ.img.ptrAt off
  size : σ'.img.size = σ.img.size
  dat : σ'.dat.length = σ.dat.length
  members : σ'.members = σ.members
  fresh : σ'.fresh = σ.fresh
  locks : σ'.w.locks = σ.w.locks
  obj : σ'.obj = σ.obj

theorem chainOff_lt {h : Nat} (real : h < nhashDef) : chainOff h < recordsOff := by
  simp only [chainOff, recordsOff, hashOff, ptrSz, nhashDef] at *
  omega

theorem St.Same.of_parts {o : Owner ι} (list : SameList σ σ' o)
    (slot : ∀ place : Place, place.Real → ∀ off < recordsOff, o = .at place →
    σ'.img.ptrAt off = σ.img.ptrAt off)
    (size : σ'.img.size = σ.img.size) (dat : σ'.dat.length = σ.dat.length)
    (fresh : ∀ q, o = .priv q → σ'.fresh q = σ.fresh q) (map : σ'.map = σ.map) : σ.Same σ' o := by
  rcases o with (h | _ | _ | _) | q | _
  · exact ⟨list, fun real => slot (.chain h) real _ (chainOff_lt real) rfl,
      fun key _ => by rw [map]⟩
  · exact ⟨list, slot .free trivial _ (by decide) rfl⟩
  · exact ⟨list, size⟩
  · exact ⟨list, dat⟩
  · exact ⟨list, fresh q rfl⟩
  · exact list

/-- What two states have in common they still have after the same change. -/
theorem St.Same.change {τ τ' : St ι} {o : Owner ι} (same : σ.Same τ o) (list : SameList σ' τ' o)
    (slot : ∀ off < recordsOff, τ.img.ptrAt off = σ.img.ptrAt off →
    τ'.img.ptrAt off = σ'.img.ptrAt off)
    (size : o = .at .idxEnd → τ.img.size = σ.img.size → τ'.img.size = σ'.img.size)
    (dat : o = .at .datEnd → τ.dat.length = σ.dat.length → τ'.dat.length = σ'.dat.length)
    (fresh : ∀ q, o = .priv q → τ.fresh q = σ.fresh q → τ'.fresh q = σ'.fresh q)
    (obj : σ'.obj = σ.obj)
    (obj' : τ'.obj = τ.obj) : σ'.Same τ' o := by
  rcases o with (h | _ | _ | _) | q | _
  · refine ⟨list, fun real => slot _ (chainOff_lt real) (same.2.1 real), fun key hash => ?_⟩
    rw [St.map, St.map, obj, obj']
    exact same.2.2 key hash
  · exact ⟨list, slot _ (by decide) same.2⟩
  · exact ⟨list, size rfl same.2⟩
  · exact ⟨list, dat rfl same.2⟩
  · exact ⟨list, fresh q rfl same.2⟩
  · exact list

theorem Rely.region {τ : St ι} (relied : Rely p σ τ) {o : Owner ι}
    (reads : σ.Reads p o ∨ o = .lost) : σ.Same τ o := by
  rcases reads with reads | rfl
  · exact relied.same o reads
  · exact relied.lost

namespace Rewrites

variable {x : Nat} {e e' : Entry} {o : Owner ι}

theorem frame (rewrites : Rewrites x e' σ σ') (sorted : Sorted σ) (member : x ∈ σ.members o)
    (writes : σ.Writes p o)
    (found : σ.img.entryAt x = some e) (length : e'.text.length = e.text.length)
    (lasting : ¬σ.Holds p .free .write → isBlank e.key = false →
      e'.key = e.key ∧ e'.doff = e.doff ∧ e'.data.length = e.data.length)
    (pos : ∀ q, q ≠ p → σ'.w.pos q = σ.w.pos q) : Frame p σ σ' where
  pos := pos
  locks := rewrites.locks
  obj := rewrites.obj
  same o' untouched := by
    refine .of_parts ⟨by rw [rewrites.members], fun y inList => ?_⟩ (fun _ _ off low _ =>
      rewrites.slot off low)
      rewrites.size rewrites.dat (fun q _ => by rw [rewrites.fresh]) (by rw [St.map, rewrites.obj])
    rw [rewrites.entry, if_neg]
    rintro rfl
    exact untouched (sorted.one inList member ▸ writes)
  grows y d foundY := by
    rw [rewrites.entry]
    split
    case isTrue same =>
      rw [same, found] at foundY
      cases foundY
      exact ⟨e', rfl, length⟩
    case isFalse => exact ⟨d, foundY, rfl⟩
  lasting unheld y d foundY visible := by
    rw [rewrites.entry]
    split
    case isTrue same =>
      rw [same, found] at foundY
      cases foundY
      exact ⟨e', rfl, lasting unheld visible⟩
    case isFalse => exact ⟨d, foundY, rfl, rfl, rfl⟩

theorem rely {τ τ' : St ι} (relied : Rely p σ τ) (first : Rewrites x e σ σ')
    (second : Rewrites x e τ τ')
    (function : τ = σ → τ' = σ') (pos : τ'.w.pos p = σ'.w.pos p) : Rely p σ' τ' := by
  have entry (y : Nat) (same : τ.img.entryAt y = σ.img.entryAt y) :
      τ'.img.entryAt y = σ'.img.entryAt y := by
    rw [first.entry, second.entry, same]
  refine relied.change function pos first.locks second.locks first.obj second.obj
    (fun o reads => ?_) ?_ ?_
  · have same := relied.region reads
    refine same.change ⟨?_, fun y member => ?_⟩ (fun off low => ?_) (fun _ => ?_) (fun _ =>
      ?_) (fun q _ => ?_)
      first.obj second.obj
    · rw [first.members, second.members]
      exact same.list.members
    · rw [first.members] at member
      exact entry y (same.list.entries y member)
    · rw [first.slot off low, second.slot off low]
      exact id
    · rw [first.size, second.size]
      exact id
    · rw [first.dat, second.dat]
      exact id
    · rw [first.fresh, second.fresh]
      exact id
  · intro y d foundY
    rw [first.entry] at foundY
    rw [second.entry]
    split at foundY
    case isTrue => cases foundY; exact ⟨e, by simp [*], rfl⟩
    case isFalse other =>
      rw [if_neg other]
      exact relied.grows y d foundY
  · intro lasting y d foundY visible
    rw [first.entry] at foundY
    rw [second.entry]
    split at foundY
    case isTrue => cases foundY; exact ⟨e, by simp [*], rfl, rfl, rfl⟩
    case isFalse other =>
      rw [if_neg other]
      exact lasting y d foundY visible

theorem sorted (rewrites : Rewrites x e' σ σ') (sorted : Sorted σ)
    (found : σ.img.entryAt x = some e) : Sorted σ' where
  owned y := by
    rw [rewrites.members, ← sorted.owned y, rewrites.entry]
    split
    case isTrue same => simp [same, found]
    case isFalse => rfl
  one := rewrites.members ▸ sorted.one
  nodup := rewrites.members ▸ sorted.nodup
  listed := rewrites.members ▸ sorted.listed

/-- A rewrite that keeps the data of the record. -/
theorem stored (rewrites : Rewrites x e' σ σ') (stored : Stored σ)
    (found : σ.img.entryAt x = some e)
    (doff : e'.doff = e.doff) (data : e'.data = e.data) (dat : σ'.dat = σ.dat) : Stored σ' := by
  have extent (a : Holder ι) : σ'.extent a = σ.extent a := by
    cases a with
    | entry y =>
      simp only [St.extent]
      rw [rewrites.entry]
      split
      case isTrue same => simp [same, found, doff, data]
      case isFalse => rfl
    | proc q => simp only [St.extent]; rw [rewrites.fresh]
  constructor
  · intro a d s there
    rw [extent] at there
    rw [dat]
    exact stored.there there
  · intro a b d d' s s' different first second
    rw [extent] at first second
    exact stored.apart different first second

end Rewrites

/-! ## A pointer of the table rewritten -/

/-- Where the pointer of a list stands in the table. -/
def Place.slot : Place → Nat
  | .chain h => chainOff h
  | _ => freeOff

/-- The places that have a list. -/
def Place.Listed : Place → Prop
  | .chain h => h < nhashDef
  | .free => True
  | _ => False

theorem Place.slot_lt {place : Place} (listed : place.Listed) : place.slot < recordsOff := by
  cases place with
  | chain h => exact chainOff_lt listed
  | free => decide
  | idxEnd => exact listed.elim
  | datEnd => exact listed.elim

theorem Place.slot_inj {place other : Place} (listed : place.Listed) (listed' : other.Listed)
    (same : place.slot = other.slot) : place = other := by
  cases place <;> cases other <;>
    simp only [Place.slot, chainOff, hashOff, ptrSz, freeOff, Place.Listed,
      Place.chain.injEq] at * <;> omega

/-- The pointer in the slot of `place` is now `v`; everything else is as before. -/
structure Repoints (place : Place) (v : Nat) (σ σ' : St ι) : Prop where
  entry : ∀ y, σ'.img.entryAt y = σ.img.entryAt y
  slot : ∀ off < recordsOff, σ'.img.ptrAt off = if off = place.slot then some v else σ.img.ptrAt off
  size : σ'.img.size = σ.img.size
  dat : σ'.dat = σ.dat
  members : σ'.members = σ.members
  fresh : σ'.fresh = σ.fresh
  locks : σ'.w.locks = σ.w.locks
  obj : σ'.obj = σ.obj

namespace Repoints

variable {place : Place} {v : Nat}

theorem frame (repoints : Repoints place v σ σ') (listed : place.Listed)
    (writes : σ.Holds p place .write)
    (pos : ∀ q, q ≠ p → σ'.w.pos q = σ.w.pos q) : Frame p σ σ' where
  pos := pos
  locks := repoints.locks
  obj := repoints.obj
  same o untouched := by
    have list : SameList σ σ' o := ⟨by rw [repoints.members], fun y _ => repoints.entry y⟩
    have slot (other : Place) (listed' : other.Listed) (here : o = .at other) :
        σ'.img.ptrAt other.slot = σ.img.ptrAt other.slot := by
      rw [repoints.slot _ (Place.slot_lt listed'), if_neg]
      intro same
      refine untouched ?_
      rw [here, Place.slot_inj listed' listed same]
      exact writes
    rcases o with (h | _ | _ | _) | q | _
    · exact ⟨list, fun real => slot (.chain h) real rfl,
        fun key _ => by rw [St.map, St.map, repoints.obj]⟩
    · exact ⟨list, slot .free trivial rfl⟩
    · exact ⟨list, repoints.size⟩
    · exact ⟨list, by rw [repoints.dat]⟩
    · exact ⟨list, by rw [repoints.fresh]⟩
    · exact list
  grows y d foundY := ⟨d, (repoints.entry y).trans foundY, rfl⟩
  lasting _ y d foundY _ := ⟨d, (repoints.entry y).trans foundY, rfl, rfl, rfl⟩

theorem rely {τ τ' : St ι} (relied : Rely p σ τ) (first : Repoints place v σ σ')
    (second : Repoints place v τ τ')
    (function : τ = σ → τ' = σ') (pos : τ'.w.pos p = σ'.w.pos p) : Rely p σ' τ' := by
  refine relied.change function pos first.locks second.locks first.obj second.obj
    (fun o reads => ?_) ?_ ?_
  · have same := relied.region reads
    refine same.change ⟨?_, fun y member => ?_⟩ (fun off low before => ?_) (fun _ => ?_) (fun _ =>
      ?_) (fun q _ => ?_)
      first.obj second.obj
    · rw [first.members, second.members]
      exact same.list.members
    · rw [first.members] at member
      rw [first.entry, second.entry]
      exact same.list.entries y member
    · rw [first.slot off low, second.slot off low, before]
    · rw [first.size, second.size]
      exact id
    · rw [first.dat, second.dat]
      exact id
    · rw [first.fresh, second.fresh]
      exact id
  · intro y d foundY
    rw [first.entry] at foundY
    rw [second.entry]
    exact relied.grows y d foundY
  · intro lasting y d foundY visible
    rw [first.entry] at foundY
    rw [second.entry]
    exact lasting y d foundY visible

theorem sorted (repoints : Repoints place v σ σ') (sorted : Sorted σ) : Sorted σ' where
  owned y := by
    rw [repoints.members, repoints.entry]
    exact sorted.owned y
  one := repoints.members ▸ sorted.one
  nodup := repoints.members ▸ sorted.nodup
  listed := repoints.members ▸ sorted.listed

theorem stored (repoints : Repoints place v σ σ') (stored : Stored σ) : Stored σ' := by
  have extent (a : Holder ι) : σ'.extent a = σ.extent a := by
    cases a with
    | entry y => simp only [St.extent]; rw [repoints.entry]
    | proc q => simp only [St.extent]; rw [repoints.fresh]
  constructor
  · intro a d s there
    rw [extent] at there
    rw [repoints.dat]
    exact stored.there there
  · intro a b d d' s s' different first second
    rw [extent] at first second
    exact stored.apart different first second

end Repoints

/-! ## A record handed over -/

section Handing

variable [DecidableEq ι]

/-- The record at `x` goes from the list of `o` to the front of the list of `o'`. -/
def St.move (σ : St ι) (x : Nat) (o o' : Owner ι) : St ι :=
  { σ with members := Function.update (Function.update σ.members o ((σ.members o).erase x)) o' (x :: σ.members o') }

variable {x : Nat} {o o' : Owner ι}

theorem St.move_members (k : Owner ι) : (σ.move x o o').members k =
    if k = o' then x :: σ.members o' else if k = o then (σ.members o).erase x else σ.members k := by
  simp only [St.move, Function.update_apply]

theorem St.move_frame (writes : σ.Writes p o) (writes' : σ.Writes p o') :
    Frame p σ (σ.move x o o') where
  pos _ _ := rfl
  locks := rfl
  obj := rfl
  same k untouched := by
    refine .of_parts ⟨?_, fun _ _ => rfl⟩ (fun _ _ _ _ _ => rfl) rfl rfl (fun _ _ => rfl) rfl
    rw [St.move_members, if_neg, if_neg]
    · rintro rfl
      exact untouched writes
    · rintro rfl
      exact untouched writes'
  grows := .refl σ
  lasting _ := .refl σ

theorem St.move_rely {τ : St ι} (relied : Rely p σ τ) (member : x ∈ σ.members o)
    (reads : σ.Reads p o) (reads' : σ.Reads p o') : Rely p (σ.move x o o') (τ.move x o o') := by
  refine relied.change (by rintro rfl; rfl) relied.pos
    rfl rfl rfl rfl (fun k readsK => ?_) relied.grows id
  have same := relied.region readsK
  have from' := (relied.same o reads).list
  have to' := (relied.same o' reads').list
  refine same.change ⟨?_, fun y inList => ?_⟩ (fun _ _ => id) (fun _ => id) (fun _ =>
    id) (fun _ _ => id) rfl rfl
  · rw [St.move_members, St.move_members, from'.members, to'.members, same.list.members]
  · rw [St.move_members] at inList
    change τ.img.entryAt y = σ.img.entryAt y
    split at inList
    · rcases List.mem_cons.1 inList with rfl | old
      · exact from'.entries _ member
      · exact to'.entries y old
    · split at inList
      · exact from'.entries y (List.mem_of_mem_erase inList)
      · exact same.list.entries y inList

theorem St.move_sorted (sorted : Sorted σ) (different : o' ≠ o) (member : x ∈ σ.members o)
    (listed : ∀ place, o' = .at place → place.Listed) : Sorted (σ.move x o o') := by
  have nodup := sorted.nodup o
  have gone (k : Owner ι) (inList : x ∈ (σ.move x o o').members k) : k = o' := by
    rw [St.move_members] at inList
    split at inList
    · assumption
    · split at inList
      · exact absurd inList (nodup.not_mem_erase)
      · exact absurd (sorted.one inList member) ‹_›
  have kept (k : Owner ι) (y : Nat) (other : y ≠ x) : y ∈ (σ.move x o o').members k ↔
      y ∈ σ.members k := by
    rw [St.move_members]
    split
    · subst k
      simp [other]
    · split
      · subst k
        exact List.mem_erase_of_ne other
      · rfl
  have there : x ∈ (σ.move x o o').members o' := by
    rw [St.move_members, if_pos rfl]
    exact List.mem_cons_self
  constructor
  · intro y
    change (σ.img.entryAt y).isSome ↔ _
    rw [sorted.owned y]
    by_cases same : y = x
    · subst same
      exact ⟨fun _ => ⟨o', there⟩, fun _ => ⟨o, member⟩⟩
    · exact exists_congr fun k => (kept k y same).symm
  · intro y k k' first second
    by_cases same : y = x
    · subst same
      rw [gone k first, gone k' second]
    · exact sorted.one ((kept k y same).1 first) ((kept k' y same).1 second)
  · intro k
    rw [St.move_members]
    split
    · refine List.nodup_cons.2 ⟨fun inList => different (sorted.one inList member), sorted.nodup o'⟩
    · split
      · exact nodup.erase x
      · exact sorted.nodup k
  · intro y place inList
    by_cases same : y = x
    · subst same
      have := listed place (gone _ inList).symm
      cases place with
      | chain h => exact .inr ⟨h, this, rfl⟩
      | free => exact .inl rfl
      | idxEnd => exact this.elim
      | datEnd => exact this.elim
    · exact sorted.listed ((kept _ y same).1 inList)

theorem St.move_stored (stored : Stored σ) : Stored (σ.move x o o') := ⟨stored.there, stored.apart⟩

end Handing

/-! ## The changes as functions -/

namespace St

/-- The index file is rewritten in place. -/
def setImg (σ : St ι) (img : Image) : St ι :=
  { σ with img := img, w := σ.w.setBytes .idx img.bytes }

/-- The data of the record at `x` is rewritten in place. -/
def setData (σ : St ι) (x : Nat) (e : Entry) (data : Bytes) : St ι :=
  { σ with
    img := σ.img.setEntry x { e with data := data }
    w := σ.w.setBytes .dat (writeAt σ.dat e.doff (data ++ [newline])) }

end St

theorem St.setPtr_repoints {place : Place} (listed : place.Listed) {u v : Nat}
    (found : σ.img.ptrAt place.slot = some u) :
    Repoints place v σ (σ.setImg (σ.img.setPtr place.slot v)) where
  entry y := by
    change (σ.img.setPtr place.slot v).entryAt y = _
    rw [Image.entryAt_setPtr found]
    split
    case isTrue same =>
      have low := Place.slot_lt listed
      simp [Image.entryAt, same, low]
    case isFalse => rfl
  slot off _ := by
    change (σ.img.setPtr place.slot v).ptrAt off = _
    rw [Image.ptrAt_setPtr found]
  size := Image.setPtr_size found v
  dat := rfl
  members := rfl
  fresh := rfl
  locks := rfl
  obj := rfl

theorem St.setEntry_rewrites {x : Nat} {e e' : Entry} (found : σ.img.entryAt x = some e)
    (length : e'.text.length = e.text.length) :
    Rewrites x e' σ (σ.setImg (σ.img.setEntry x e')) where
  entry y := Image.entryAt_setEntry found length
  slot off low := by
    change (σ.img.setEntry x e').ptrAt off = _
    rw [Image.ptrAt, Image.ptrAt, if_pos low, if_pos low]
    rfl
  size := Image.setEntry_size found length
  dat := rfl
  members := rfl
  fresh := rfl
  locks := rfl
  obj := rfl

/-- Data of the same length leave the text of the record as it is. -/
theorem Entry.text_data (e : Entry) {data : Bytes} (length : data.length = e.data.length) :
    Entry.text { e with data := data } = e.text := by
  simp only [Entry.text, Entry.dlen, length]

theorem St.setData_rewrites {x : Nat} {e : Entry} {data : Bytes} (found : σ.img.entryAt x = some e)
    (there : HasAt σ.dat e.doff (e.data ++ [newline])) (length : data.length = e.data.length) :
    Rewrites x { e with data := data } σ (σ.setData x e data) where
  entry y := Image.entryAt_setEntry found (by rw [e.text_data length])
  slot off low := by
    change (σ.img.setEntry x _).ptrAt off = _
    rw [Image.ptrAt, Image.ptrAt, if_pos low, if_pos low]
    rfl
  size := Image.setEntry_size found (by rw [e.text_data length])
  dat := by
    have bound := there.bound
    rw [List.length_append, List.length_singleton] at bound
    simp only [St.dat, St.setData, World.setBytes_bytes, if_true]
    exact writeAt_length (by simpa [length] using bound)
  members := rfl
  fresh := rfl
  locks := rfl
  obj := rfl

theorem St.setData_stored {x : Nat} {e : Entry} {data : Bytes} (stored : Stored σ)
    (found : σ.img.entryAt x = some e)
    (length : data.length = e.data.length) : Stored (σ.setData x e data) := by
  have own : σ.extent (.entry x) = some (e.doff, e.data) := by simp [St.extent, found]
  have there := stored.there own
  have rewrites := St.setData_rewrites found there length
  have bound : e.doff + (data ++ [newline]).length ≤ σ.dat.length := by
    simpa [length] using there.bound
  have dat : (σ.setData x e data).dat = writeAt σ.dat e.doff (data ++ [newline]) := by
    simp [St.dat, St.setData, World.setBytes_bytes]
  have extent (a : Holder ι) {d : Nat} {s : Bytes} (here : (σ.setData x e data).extent a =
      some (d, s)) :
      (a = .entry x ∧ d = e.doff ∧ s = data) ∨ (a ≠ .entry x ∧ σ.extent a = some (d, s)) := by
    cases a with
    | entry y =>
      simp only [St.extent, rewrites.entry] at here
      split at here
      case isTrue same =>
        simp only [Option.map_some, Option.some.injEq, Prod.mk.injEq] at here
        exact .inl ⟨by rw [same], here.1.symm, here.2.symm⟩
      case isFalse other => exact .inr ⟨by simpa using other, here⟩
    | proc q => exact .inr ⟨by simp, here⟩
  constructor
  · intro a d s here
    rw [dat]
    rcases extent a here with ⟨-, rfl, rfl⟩ | ⟨other, here⟩
    · exact there.write (by simp [length])
    · refine (stored.there here).write_elsewhere bound ?_
      rcases stored.apart other here own with below | above
      · exact .inl (by simpa using below)
      · exact .inr (by simpa [length] using above)
  · intro a b d d' s s' different first second
    rcases extent a first with ⟨rfl, rfl, rfl⟩ | ⟨-, oldFirst⟩ <;>
      rcases extent b second with ⟨rfl, rfl, rfl⟩ | ⟨-, oldSecond⟩
    · exact absurd rfl different
    · rw [length]
      exact stored.apart different own oldSecond
    · rw [length]
      exact stored.apart different oldFirst own
    · exact stored.apart different oldFirst oldSecond

section Own

variable [DecidableEq ι]

namespace St

def seek (σ : St ι) (p : ι) (file : File) (offset : Nat) : St ι :=
  { σ with w := σ.w.setPos p file offset }

def appendData (σ : St ι) (p : ι) (data : Bytes) : St ι :=
  { σ with
    fresh := Function.update σ.fresh p (some (σ.dat.length, data))
    w := σ.w.setBytes .dat (σ.dat ++ (data ++ [newline])) }

/-- The record becomes the process's, and the data it has appended the record's. -/
def appendEntry (σ : St ι) (p : ι) (e : Entry) : St ι :=
  { σ with
    img := σ.img.append e
    w := σ.w.setBytes .idx (σ.img.append e).bytes
    members := Function.update σ.members (.priv p) (σ.img.size :: σ.members (.priv p))
    fresh := Function.update σ.fresh p none }

end St

theorem St.seek_frame (σ : St ι) (p : ι) (file : File) (offset : Nat) :
    Frame p σ (σ.seek p file offset) where
  pos q other := by simp [St.seek, World.setPos_pos, other]
  locks := rfl
  obj := rfl
  same o _ := .of_parts ⟨rfl, fun _ _ => rfl⟩ (fun _ _ _ _ _ => rfl) rfl rfl (fun _ _ => rfl) rfl
  grows := .refl σ
  lasting _ := .refl σ

theorem St.seek_rely {τ : St ι} (relied : Rely p σ τ) (file : File) (offset : Nat) :
    Rely p (σ.seek p file offset) (τ.seek p file offset) := by
  refine relied.change (by rintro rfl; rfl) ?_ rfl rfl rfl rfl (fun o reads => ?_) relied.grows id
  · simp only [St.seek, World.setPos_pos, if_true, relied.pos]
  · have same := relied.region reads
    exact same.change ⟨same.list.members, same.list.entries⟩ (fun _ _ => id) (fun _ => id) (fun _ =>
      id) (fun _ _ => id) rfl rfl

/-! ## Appending -/

theorem St.appendData_frame {data : Bytes} (held : σ.Holds p .datEnd .write) :
    Frame p σ (σ.appendData p data) where
  pos _ _ := rfl
  locks := rfl
  obj := rfl
  same o untouched := by
    have list : SameList σ (σ.appendData p data) o := ⟨rfl, fun _ _ => rfl⟩
    rcases o with (h | _ | _ | _) | q | _
    · exact ⟨list, fun _ => rfl, fun _ _ => rfl⟩
    · exact ⟨list, rfl⟩
    · exact ⟨list, rfl⟩
    · exact absurd held untouched
    · refine ⟨list, ?_⟩
      have other : q ≠ p := untouched
      simp [St.appendData, other]
    · exact list
  grows := .refl σ
  lasting _ := .refl σ

theorem St.appendData_dat (σ : St ι) (p : ι) (data : Bytes) :
    (σ.appendData p data).dat = σ.dat ++ (data ++ [newline]) := by
  simp [St.dat, St.appendData, World.setBytes_bytes]

theorem St.appendData_rely {τ : St ι} {data : Bytes} (relied : Rely p σ τ)
    (held : σ.Holds p .datEnd .write) :
    Rely p (σ.appendData p data) (τ.appendData p data) := by
  have length : τ.dat.length = σ.dat.length := (relied.same (.at .datEnd) ⟨.write, held⟩).2
  refine relied.change (by rintro rfl; rfl) relied.pos
    rfl rfl rfl rfl (fun o reads => ?_) relied.grows id
  have same := relied.region reads
  refine same.change ⟨same.list.members, same.list.entries⟩ (fun _ _ => id) (fun _ => id) (fun _ =>
    ?_) (fun q _ before => ?_)
    rfl rfl
  · intro before
    simp only [St.appendData_dat, List.length_append, before]
  · simp only [St.appendData, Function.update_apply, length, before]

theorem St.appendData_stored {data : Bytes} (stored : Stored σ) : Stored (σ.appendData p data) := by
  have extent (a : Holder ι) {d : Nat} {s : Bytes} (there : (σ.appendData p data).extent a =
      some (d, s)) :
      (a = .proc p ∧ d = σ.dat.length ∧ s = data) ∨ (a ≠ .proc p ∧ σ.extent a = some (d, s)) := by
    cases a with
    | entry x => exact .inr ⟨by simp, there⟩
    | proc q =>
      simp only [St.extent, St.appendData, Function.update_apply] at there
      split at there
      case isTrue own =>
        simp only [Option.some.injEq, Prod.mk.injEq] at there
        exact .inl ⟨by rw [own], there.1.symm, there.2.symm⟩
      case isFalse other => exact .inr ⟨by simpa using other, there⟩
  have old {a : Holder ι} {d : Nat} {s : Bytes} (there : σ.extent a = some (d, s)) :
      d + (s.length + 1) ≤ σ.dat.length := by
    simpa using (stored.there there).bound
  constructor
  · intro a d s there
    rw [St.appendData_dat]
    rcases extent a there with ⟨-, rfl, rfl⟩ | ⟨-, there⟩
    · exact .at_end ..
    · exact (stored.there there).append _
  · intro a b d d' s s' different first second
    rcases extent a first with ⟨rfl, rfl, rfl⟩ | ⟨-, oldFirst⟩ <;>
      rcases extent b second with ⟨rfl, rfl, rfl⟩ | ⟨-, oldSecond⟩
    · exact absurd rfl different
    · exact .inr (old oldSecond)
    · exact .inl (old oldFirst)
    · exact stored.apart different oldFirst oldSecond

theorem St.appendEntry_entryAt (σ : St ι) (p : ι) (e : Entry) (y : Nat) :
    (σ.appendEntry p e).img.entryAt y = if y = σ.img.size then some e else σ.img.entryAt y :=
    Image.entryAt_append

theorem St.appendEntry_frame {e : Entry} (sorted : Sorted σ) (held : σ.Holds p .idxEnd .write) :
    Frame p σ (σ.appendEntry p e) where
  pos _ _ := rfl
  locks := rfl
  obj := rfl
  same o untouched := by
    have notOwn : o ≠ .priv p := by
      rintro rfl
      exact untouched rfl
    have list : SameList σ (σ.appendEntry p e) o := by
      refine ⟨by simp [St.appendEntry, notOwn], fun y member => ?_⟩
      have found := (sorted.owned y).2 ⟨o, member⟩
      rw [St.appendEntry_entryAt, if_neg]
      rintro rfl
      simp [Image.entryAt_size] at found
    rcases o with (h | _ | _ | _) | q | _
    · refine ⟨list, fun real => ?_, fun _ _ => rfl⟩
      exact (σ.img.ptrAt_append (chainOff_lt real) e)
    · exact ⟨list, σ.img.ptrAt_append (by decide) e⟩
    · exact absurd held untouched
    · exact ⟨list, rfl⟩
    · have other : q ≠ p := fun same => notOwn (by rw [same])
      exact ⟨list, by simp [St.appendEntry, other]⟩
    · exact list
  grows y d foundY := by
    refine ⟨d, ?_, rfl⟩
    rw [St.appendEntry_entryAt, if_neg, foundY]
    rintro rfl
    rw [Image.entryAt_size] at foundY
    cases foundY
  lasting _ y d foundY _ := by
    refine ⟨d, ?_, rfl, rfl, rfl⟩
    rw [St.appendEntry_entryAt, if_neg, foundY]
    rintro rfl
    rw [Image.entryAt_size] at foundY
    cases foundY

theorem St.appendEntry_rely {τ : St ι} {e : Entry} (relied : Rely p σ τ)
    (held : σ.Holds p .idxEnd .write) :
    Rely p (σ.appendEntry p e) (τ.appendEntry p e) := by
  have size : τ.img.size = σ.img.size := (relied.same (.at .idxEnd) ⟨.write, held⟩).2
  have own := (relied.same (.priv p) rfl).list
  have entry (y : Nat) (before : τ.img.entryAt y = σ.img.entryAt y) :
      (τ.appendEntry p e).img.entryAt y = (σ.appendEntry p e).img.entryAt y := by
    rw [St.appendEntry_entryAt, St.appendEntry_entryAt, size, before]
  refine relied.change (by rintro rfl; rfl) relied.pos rfl rfl rfl rfl (fun o reads => ?_) ?_ ?_
  · have same := relied.region reads
    refine same.change ⟨?_, fun y member => ?_⟩ (fun off low before => ?_) (fun _ before =>
      ?_) (fun _ => id)
      (fun q _ before => ?_) rfl rfl
    · simp only [St.appendEntry, Function.update_apply, size, own.members, same.list.members]
    · by_cases new : y = σ.img.size
      · rw [St.appendEntry_entryAt, St.appendEntry_entryAt, size, if_pos new, if_pos new]
      · refine entry y ?_
        simp only [St.appendEntry, Function.update_apply] at member
        split at member
        case isTrue => exact own.entries y ((List.mem_cons.1 member).resolve_left new)
        case isFalse => exact same.list.entries y member
    · exact (Image.ptrAt_append _ low e).trans (before.trans (Image.ptrAt_append _ low e).symm)
    · simp only [St.appendEntry, Image.append_size, before]
    · simp only [St.appendEntry, Function.update_apply, before]
  · intro y d foundY
    rw [St.appendEntry_entryAt] at foundY ⊢
    rw [size]
    split at foundY
    case isTrue new => exact ⟨d, by rw [if_pos new]; exact foundY, rfl⟩
    case isFalse old =>
      rw [if_neg old]
      exact relied.grows y d foundY
  · intro lasting y d foundY visible
    rw [St.appendEntry_entryAt] at foundY ⊢
    rw [size]
    split at foundY
    case isTrue new => exact ⟨d, by rw [if_pos new]; exact foundY, rfl, rfl, rfl⟩
    case isFalse old =>
      rw [if_neg old]
      exact lasting y d foundY visible

theorem St.appendEntry_sorted {e : Entry} (sorted : Sorted σ) : Sorted (σ.appendEntry p e) := by
  have unowned (o : Owner ι) : σ.img.size ∉ σ.members o := by
    intro member
    have := (sorted.owned σ.img.size).2 ⟨o, member⟩
    simp [Image.entryAt_size] at this
  have members (y : Nat) (o : Owner ι) :
      y ∈ (σ.appendEntry p e).members o ↔ (y = σ.img.size ∧ o = .priv p) ∨ y ∈ σ.members o := by
    simp only [St.appendEntry, Function.update_apply]
    split
    case isTrue own =>
      subst own
      simp
    case isFalse other => simp [other]
  constructor
  · intro y
    rw [St.appendEntry_entryAt]
    simp only [members, exists_or]
    split
    case isTrue new => simp [new]
    case isFalse old => simp [old, sorted.owned y]
  · intro y o o' first second
    rcases (members y o).1 first with ⟨rfl, rfl⟩ | first <;> rcases (members _ o').1
      second with ⟨new, rfl⟩ | second
    · rfl
    · exact absurd second (unowned o')
    · exact absurd (new ▸ first) (unowned o)
    · exact sorted.one first second
  · intro o
    simp only [St.appendEntry, Function.update_apply]
    split
    · exact List.nodup_cons.2 ⟨unowned _, sorted.nodup _⟩
    · exact sorted.nodup o
  · intro y place member
    rcases (members y _).1 member with ⟨_, own⟩ | old
    · cases own
    · exact sorted.listed old

/-- The data the process had appended is the record's now. -/
theorem St.appendEntry_stored {e : Entry} (stored : Stored σ)
    (fresh : σ.fresh p = some (e.doff, e.data)) :
    Stored (σ.appendEntry p e) := by
  -- every holder stands for one that had the same extent before
  have extent (a : Holder ι) {d : Nat} {s : Bytes} (there : (σ.appendEntry p e).extent a =
      some (d, s)) :
      (a = .entry σ.img.size ∧ σ.extent (.proc p) = some (d, s)) ∨
        (a ≠ .entry σ.img.size ∧ a ≠ .proc p ∧ σ.extent a = some (d, s)) := by
    cases a with
    | entry x =>
      simp only [St.extent, St.appendEntry_entryAt] at there
      split at there
      case isTrue new =>
        refine .inl ⟨by rw [new], ?_⟩
        rw [St.extent, fresh]
        simpa using there
      case isFalse old => exact .inr ⟨by simpa using old, by simp, there⟩
    | proc q =>
      simp only [St.extent, St.appendEntry, Function.update_apply] at there
      split at there
      · cases there
      case isFalse other => exact .inr ⟨by simp, by simpa using other, there⟩
  constructor
  · intro a d s there
    rcases extent a there with ⟨-, there⟩ | ⟨-, -, there⟩ <;> exact stored.there there
  · intro a b d d' s s' different first second
    rcases extent a first with ⟨rfl, oldFirst⟩ | ⟨-, notOwn, oldFirst⟩ <;>
      rcases extent b second with ⟨rfl, oldSecond⟩ | ⟨-, notOwn', oldSecond⟩
    · exact absurd rfl different
    · exact stored.apart (Ne.symm notOwn') oldFirst oldSecond
    · exact stored.apart notOwn oldFirst oldSecond
    · exact stored.apart different oldFirst oldSecond

end Own

end Apue.Db
