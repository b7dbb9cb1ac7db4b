import Apue.Db.Lists
import Apue.Db.Write

/-! # Deleting

`_db_dodelete` blanks the record that has been found, puts it in front of the free list and takes it
out of its chain, all while it holds the free list.
-/

namespace Apue.Db

open Apue.Base St

variable {ι : Type} [DecidableEq ι] {room : Nat} {env : ι → FileCall File → St ι → Prop}
    {E : Err → St ι → Prop} {p : ι}
  {σ σ' σ'' : St ι} {db : DB} {key : Bytes} {op : Op}

/-! ## Blanks -/

theorem isBlank_replicate (n : Nat) : isBlank (List.replicate n space) = true := by simp [isBlank]

theorem nulFree_replicate (n : Nat) : NulFree (List.replicate n space) := by
  intro member
  exact absurd (List.eq_of_mem_replicate member) (by decide)

theorem sep_notMem_replicate (n : Nat) : sep ∉ List.replicate n space := by
  intro member
  exact absurd (List.eq_of_mem_replicate member) (by decide)

/-- The record as `_db_dodelete` leaves it, in front of a free list that starts at `head`. -/
def Entry.blanked (e : Entry) (head : Nat) : Entry :=
  ⟨head, List.replicate e.key.length space, e.doff, List.replicate e.data.length space⟩

theorem Entry.blanked_text (e : Entry) (head : Nat) :
    (e.blanked head).text.length = e.text.length := by
  simp [Entry.text_length, Entry.blanked, Entry.dlen]

theorem Entry.Ok.blanked {e : Entry} (ok : e.Ok) {head : Nat} (small : head ≤ ptrMax) :
    (e.blanked head).Ok :=
  ⟨small, nulFree_replicate _, sep_notMem_replicate _, e.blanked_text head ▸ ok.textMin,
    e.blanked_text head ▸ ok.textMax,
    ok.doff, nulFree_replicate
      _, by simpa [Entry.blanked] using ok.dataMin, by simpa [Entry.blanked] using ok.dataMax⟩

/-! ## What stays -/

/-- Between two points of an operation nothing gets lost, and a process on its own finds map and
files as large as they were. -/
structure Until (p : ι) (σ σ' : St ι) : Prop where
  lost : σ'.members .lost = σ.members .lost
  alone : Alone p → σ'.map = σ.map ∧ σ'.dat.length = σ.dat.length ∧ σ'.img.size = σ.img.size

/-- Between two points of an operation that has the chain of the key, the bindings on the chain are
the same. -/
structure Since (p : ι) (key : Bytes) (σ σ' : St ι) : Prop extends Until p σ σ' where
  map : ∀ k, dbHash nhashDef k = dbHash nhashDef key → σ'.map k = σ.map k

/-- The same between two points where the files may have grown. -/
structure Kept (p : ι) (key : Bytes) (σ σ' : St ι) : Prop where
  lost : σ'.members .lost = σ.members .lost
  map : ∀ k, dbHash nhashDef k = dbHash nhashDef key → σ'.map k = σ.map k
  alone : Alone p → σ'.map = σ.map

section

omit [DecidableEq ι]

theorem Since.kept (since : Since p key σ σ') : Kept p key σ σ' :=
  ⟨since.lost, since.map, fun only => (since.alone only).1⟩

theorem Kept.trans (first : Kept p key σ σ') (second : Kept p key σ' σ'') : Kept p key σ σ'' :=
  ⟨second.lost.trans first.lost, fun k here => (second.map k here).trans (first.map k here),
    fun only => (second.alone only).trans (first.alone only)⟩

theorem Until.refl (p : ι) (σ : St ι) : Until p σ σ := ⟨rfl, fun _ => ⟨rfl, rfl, rfl⟩⟩

theorem Until.trans (first : Until p σ σ') (second : Until p σ' σ'') : Until p σ σ'' where
  lost := second.lost.trans first.lost
  alone only := by
    obtain ⟨map, dat, size⟩ := first.alone only
    obtain ⟨map', dat', size'⟩ := second.alone only
    exact ⟨map'.trans map, dat'.trans dat, size'.trans size⟩

theorem Since.refl (p : ι) (key : Bytes) (σ : St ι) : Since p key σ σ := ⟨.refl p σ, fun _ _ => rfl⟩

theorem Since.trans (first : Since p key σ σ') (second : Since p key σ' σ'') : Since p key σ σ'' :=
  ⟨first.toUntil.trans second.toUntil, fun k here => (second.map k here).trans (first.map k here)⟩

/-- Taking and giving up a lock changes nothing else. -/
theorem Carries.since (carries : Carries p σ σ') (reads : σ.Reads p (.at (keyPlace key)))
    (alone : Alone p → σ'.map = σ.map ∧ σ'.dat.length = σ.dat.length ∧ σ'.img.size = σ.img.size) :
    Since p key σ σ' :=
  ⟨⟨carries.lost.members, alone⟩, (carries.same _ reads).2.2⟩

end

theorem free_notMem_key (key : Bytes) (type type' : LockType) :
    Place.free.lock type ≠ (keyPlace key).lock type' := by
  intro same
  cases (Place.lock_inj Place.free_real (keyPlace_real key) same).1

omit [DecidableEq ι] in
/-- The records of the chain a process gives the free list up with are bound. -/
theorem ChainOk.live {m : Map} (ok : ChainOk σ (dbHash nhashDef key) m)
    (holding : Holding σ p [Place.free.lock .write, (keyPlace key).lock .write])
    (sub : ∀ k d, m k = some d → σ.map k = some d)
    (h x : Nat) (e : Entry) (real : h < nhashDef) (held : σ.Holds p (.chain h) .write)
    (member : x ∈ σ.chain h)
    (found : σ.img.entryAt x = some e) (_ : isBlank e.key = false) :
    Storing σ p e ∨ σ.map e.key = some e.data := by
  have inList := (holding _).1 held
  simp only [List.mem_cons, List.not_mem_nil, or_false] at inList
  rcases inList with isFree | isKey
  · cases (Place.lock_inj (Place.chain_real real) Place.free_real isFree).1
  · obtain rfl : h = dbHash nhashDef key :=
      Place.chain.inj (Place.lock_inj (Place.chain_real real) (keyPlace_real key) isKey).1
    obtain ⟨d, found', hash⟩ := ok.entries x member
    rw [found] at found'
    cases found'
    exact .inr (sub _ _ ((ok.bound hash e.data).2 ⟨x, member, e, found, rfl, rfl⟩))

/-! ## From the chain to the free list -/

omit [DecidableEq ι] in
theorem FreeOk.head (ok : FreeOk σ) : σ.img.ptrAt freeOff = some (σ.free.head?.getD 0) :=
  ok.linked.first

/-- How the files and lists stand after the four writes of `_db_dodelete`. -/
structure Deleted (p : ι) (key : Bytes) (x : Nat) (e : Entry) (before after : List Nat)
    (σ σ' : St ι) : Prop where
  chain : σ'.chain (dbHash nhashDef key) = before ++ after
  free : σ'.free = x :: σ.free
  own : σ'.members (.priv p) = σ.members (.priv p)
  lost : σ'.members .lost = σ.members .lost
  entry : ∃ head, σ.img.ptrAt freeOff = some head ∧ σ'.img.entryAt x = some (e.blanked head)
  others : ∀ z, z ≠ x → z ∉ before ++ after → σ'.img.entryAt z = σ.img.entryAt z
  kept : ∀ z, z ≠ x → ∀ d, σ.img.entryAt z = some d → ∃ u, σ'.img.entryAt z = some (d.withPtr u)
  head : σ'.img.ptrAt freeOff = some x
  cell : σ'.img.ptrAt (lastCell (chainOff (dbHash nhashDef key)) before) = some e.ptr
  rest : ∀ z, z = chainOff (dbHash nhashDef key) ∨ z ∈ before ++ after →
    z ≠ lastCell (chainOff (dbHash nhashDef key)) before → σ'.img.ptrAt z = σ.img.ptrAt z
  size : σ'.img.size = σ.img.size
  dat : σ'.dat.length = σ.dat.length
  fresh : σ'.fresh = σ.fresh
  locks : σ'.w.locks = σ.w.locks
  obj : σ'.obj = σ.obj

/-- Between the writes: the record at `x` is `blank`, has left its chain and belongs to `o`, and the
free list starts at `head`. -/
structure Unchained (key : Bytes) (x : Nat) (blank : Entry) (before after : List Nat) (o : Owner ι)
    (head : Nat) (σ σ' : St ι) :
    Prop where
  entry : ∀ z, σ'.img.entryAt z = if z = x then some blank else σ.img.entryAt z
  slot : ∀ off < recordsOff, σ'.img.ptrAt off = if off = freeOff then some head else σ.img.ptrAt off
  members : ∀ k, σ'.members k =
    if k = o then x :: σ.members o else if k = .at (keyPlace key) then before ++
      after else σ.members k
  size : σ'.img.size = σ.img.size
  dat : σ'.dat.length = σ.dat.length
  fresh : σ'.fresh = σ.fresh
  locks : σ'.w.locks = σ.w.locks
  obj : σ'.obj = σ.obj

omit [DecidableEq ι] in
/-- The chain without the record that is deleted. -/
theorem ChainOk.erased {m : Map} {h x : Nat} {before after : List Nat} (ok : ChainOk σ h m)
    (split : σ.chain h = before ++ x :: after) :
    (σ.chain h).erase x = before ++ after ∧ ∀ z ∈ before ++ after, z ∈ σ.chain h ∧ z ≠ x := by
  have nodup := split ▸ ok.nodup
  rw [List.nodup_middle] at nodup
  have notIn : x ∉ before ++ after := (List.nodup_cons.1 nodup).1
  refine ⟨?_, fun z member => ⟨?_, fun isX => notIn (isX ▸ member)⟩⟩
  · rw [split, List.erase_append_right _ fun member => notIn (List.mem_append_left _ member),
      List.erase_cons_head]
  · rw [split]
    rcases List.mem_append.1 member with inBefore | inAfter
    · exact List.mem_append_left _ inBefore
    · exact List.mem_append_right _ (List.mem_cons_of_mem _ inAfter)

/-- After the data and the index record have been written. -/
theorem Unchained.blanked {before after : List Nat} {x head : Nat} {e' blank : Entry}
    {τ : St ι} {m : Map}
    (ok : ChainOk σ (dbHash nhashDef key) m)
    (split : σ.chain (dbHash nhashDef key) = before ++ x :: after)
    (free : σ.img.ptrAt freeOff = some head) (first : Rewrites x e' σ σ') (offset : Nat)
    (second : Rewrites x blank (σ'.seek p .idx offset) τ) :
    Unchained key x blank before after (.priv p) head σ
      (τ.handOver (handing x (.at (keyPlace key)) (some (.priv p)))) where
  entry z := by
    rw [St.handOver_img, second.entry]
    split
    · rfl
    · exact (first.entry z).trans (if_neg ‹_›)
  slot off low := by
    rw [St.handOver_img, second.slot off low]
    refine (first.slot off low).trans ?_
    split
    · rw [‹off = freeOff›, free]
    · rfl
  members k := by
    have base : τ.members = σ.members := second.members.trans first.members
    have gone : (σ.members (.at (keyPlace key))).erase x = before ++ after := (ok.erased split).1
    change (τ.move x _ _).members k = _
    rw [St.move_members, base, gone]
  size := by
    rw [St.handOver_img, second.size]
    exact first.size
  dat := by
    rw [St.dat, St.handOver_w]
    exact second.dat.trans first.dat
  fresh := by
    rw [St.handOver_fresh, second.fresh]
    exact first.fresh
  locks := by
    rw [St.handOver_w, second.locks]
    exact first.locks
  obj := by
    rw [St.handOver_obj, second.obj]
    exact first.obj

/-- After the start of the free list has been written. -/
theorem Unchained.freed {before after : List Nat} {x head : Nat} {blank : Entry} {τ : St ι}
    (unchained : Unchained key x blank before after (.priv p) head σ σ')
    (third : Repoints .free x σ' τ) :
    Unchained key x blank before after (.at .free) x σ
      (τ.handOver (some (x, .priv p, .at .free))) where
  entry z := by rw [St.handOver_img, third.entry, unchained.entry]
  slot off low := by
    rw [St.handOver_img, third.slot off low, unchained.slot off low]
    change (if off = freeOff then _ else _) = _
    split
    · rfl
    · rfl
  members k := by
    change (τ.move x _ _).members k = _
    rw [St.move_members, third.members]
    by_cases isFree : k = .at .free
    · rw [if_pos isFree, if_pos isFree, unchained.members]
      simp [keyPlace]
    · rw [if_neg isFree, if_neg isFree, unchained.members, unchained.members, if_pos rfl,
        List.erase_cons_head]
      by_cases isPriv : k = .priv p
      · rw [if_pos isPriv, if_neg (by rw [isPriv]; simp), isPriv]
      · rw [if_neg isPriv, if_neg isPriv]
  size := by rw [St.handOver_img, third.size, unchained.size]
  dat := by
    rw [St.dat, St.handOver_w, show τ.w.bytes .dat = σ'.w.bytes .dat from third.dat, ← St.dat,
      unchained.dat]
  fresh := by rw [St.handOver_fresh, third.fresh, unchained.fresh]
  locks := by rw [St.handOver_w, third.locks, unchained.locks]
  obj := by rw [St.handOver_obj, third.obj, unchained.obj]

theorem Unchained.holds {before after : List Nat} {x head : Nat} {blank : Entry} {o : Owner ι}
    {place : Place}
    (unchained : Unchained key x blank before after o head σ σ') (held : σ.Holds p place .write) :
    σ'.Holds p place .write :=
  (St.holds_congr unchained.locks).2 held

theorem Unchained.chain {before after : List Nat} {x head : Nat} {blank : Entry}
    (unchained : Unchained key x blank before after (.at .free) head σ σ') :
    σ'.members (.at (keyPlace key)) = before ++ after := by
  simp [unchained.members, keyPlace]

theorem chainOff_ne_freeOff (h : Nat) : chainOff h ≠ freeOff := by
  simp only [chainOff, hashOff, ptrSz, freeOff]
  omega

/-- After the chain has been led past the record. -/
theorem Deleted.of_relinks {before after : List Nat} {x head : Nat} {e : Entry} {τ : St ι} {m : Map}
    (ok : ChainOk σ (dbHash nhashDef key) m)
    (split : σ.chain (dbHash nhashDef key) = before ++ x :: after)
    (free : σ.img.ptrAt freeOff = some head)
    (unchained : Unchained key x (e.blanked head) before after (.at .free) x σ σ')
    (fourth : Relinks (keyPlace key)
    (lastCell (chainOff (dbHash nhashDef key)) before) e.ptr σ' τ) :
    Deleted p key x e before after σ τ := by
  have left := (ok.erased split).2
  have chain := unchained.chain
  have notChain : x ∉ σ'.members (.at (keyPlace key)) := by
    rw [chain]
    exact fun member => (left x member).2 rfl
  have lists (k : Owner ι) : τ.members k = σ'.members k := congrFun fourth.members k
  constructor
  case chain => exact (lists _).trans chain
  case free => rw [St.free, lists, unchained.members, if_pos rfl]
  case own => simp [lists, unchained.members]
  case lost => simp [lists, unchained.members]
  case entry =>
    exact ⟨head, free, (fourth.other x notChain).trans ((unchained.entry x).trans (if_pos rfl))⟩
  case others =>
    intro z notX outside
    rw [← chain] at outside
    exact (fourth.other z outside).trans ((unchained.entry z).trans (if_neg notX))
  case kept =>
    intro z notX d was
    exact fourth.found ((unchained.entry z).trans ((if_neg notX).trans was))
  case head =>
    exact (fourth.slot _ (by decide) (chainOff_ne_freeOff _).symm).trans
      ((unchained.slot _ (by decide)).trans (if_pos rfl))
  case cell =>
    refine (fourth.ptr _ ?_).trans (if_pos rfl)
    rw [chain]
    rcases lastCell_mem (chainOff (dbHash nhashDef key)) before with here | there
    · exact .inl here
    · exact .inr (List.mem_append_left _ there)
  case rest =>
    intro z inList notCell
    refine (fourth.ptr z (chain.symm ▸ inList)).trans ((if_neg notCell).trans ?_)
    rcases inList with rfl | member
    · exact (unchained.slot _ (chainOff_lt (dbHash_lt key))).trans (if_neg (chainOff_ne_freeOff _))
    · obtain ⟨d, was⟩ := ok.records z (left z member).1
      rw [Image.ptrAt_record was,
        Image.ptrAt_record ((unchained.entry z).trans ((if_neg (left z member).2).trans was))]
  case size => exact fourth.size.trans unchained.size
  case dat => exact fourth.dat.trans unchained.dat
  case fresh => exact fourth.fresh.trans unchained.fresh
  case locks => exact fourth.locks.trans unchained.locks
  case obj => exact fourth.obj.trans unchained.obj

theorem triple_dodeleteWrites {before after : List Nat} {x c : Nat} {e : Entry} {rest : Bytes}
    (onChain : OnChain c db)
    (inv : Coherent room σ) (held : σ.Holds p (keyPlace key) .write)
    (heldFree : σ.Holds p .free .write)
    (free : FreeOk σ) {m : Map} (ok : ChainOk σ (dbHash nhashDef key) m)
    (split : σ.chain (dbHash nhashDef key) = before ++ x :: after)
    (found : σ.img.entryAt x = some e)
    (same : e.key = key) (idxoff : db.idxoff = x) (datoff : db.datoff = e.doff)
    (ptrval : db.ptrval = e.ptr)
    (idxbuf : db.idxbuf = List.replicate e.key.length space ++ 0 :: rest)
    (datbuf : db.datbuf = List.replicate e.data.length space ++ [0])
    (ptroff : db.ptroff = (lastCell (chainOff (dbHash nhashDef key)) before : Nat)) :
    Triple (discipline room env) p E σ dodeleteWrites db fun _ db' σ' =>
      OnChain c db' ∧ Deleted p key x e before after σ σ' := by
  have realH := dbHash_lt key
  have inChain : x ∈ σ.chain (dbHash nhashDef key) := by simp [split]
  have okE : e.Ok := inv.img.entry found
  have there : HasAt σ.dat e.doff (e.data ++ [newline]) :=
    inv.stored.there (a := .entry x) (by simp [St.extent, found])
  obtain ⟨cellPtr, -, -⟩ := (split ▸ ok.linked : Linked _ _ (before ++ x :: after)).at_cell
  have small : x ≤ ptrMax := inv.img.ptrAt_le cellPtr
  have left := (ok.erased split).2
  -- the data
  refine .get ?_
  rw [datbuf, datoff]
  refine .bind (triple_writedatAt (d := List.replicate e.data.length space)
    (o := .at (keyPlace key)) realH held
    (cstr_append_zero (nulFree_replicate _) []) (by simp) inChain held found there
    ⟨congrArg _ same, fun _ => .inl heldFree⟩) ?_
  rintro - _ σ₁ ⟨rfl, first⟩
  have held₁ : σ₁.Holds p (keyPlace key) .write := (St.holds_congr first.locks).2 held
  have heldFree₁ : σ₁.Holds p .free .write := (St.holds_congr first.locks).2 heldFree
  have head₁ : σ₁.img.ptrAt freeOff = some (σ.free.head?.getD 0) :=
    (first.slot _ (by decide)).trans free.head
  refine .bind (triple_readptr (P := .free) trivial ⟨.write, heldFree₁⟩ head₁) ?_
  rintro _ _ _ ⟨rfl, rfl, rfl, smallHead⟩
  -- the index record, which leaves the chain
  refine .get ?_
  have found₁ : σ₁.img.entryAt x = some { e with data := List.replicate e.data.length space } := by
    rw [first.entry, if_pos rfl]
  have inChain₁ : x ∈ σ₁.members (.at (keyPlace key)) := by rw [first.members]; exact inChain
  dsimp only
  rw [idxbuf, idxoff]
  have hands₁ : (handing x (.at (keyPlace key)) (some (.priv p))).May
      (σ₁.seek p .idx (Place.free.slot + ptrSz)) p :=
    ⟨inChain₁, held₁, rfl, by simp, by simp⟩
  have priv₁ : Fine (σ₁.seek p .idx (Place.free.slot + ptrSz)) p (e.blanked (σ.free.head?.getD 0))
      (.priv p) := by
    intro visible
    rw [Entry.blanked, isBlank_replicate] at visible
    cases visible
  have heldNow : (σ₁.seek p .idx (Place.free.slot + ptrSz)).Holds p (keyPlace key) .write := held₁
  refine .bind (triple_writeidxAt realH heldNow inChain₁ held₁ found₁ (okE.blanked smallHead)
    (cstr_append_zero (nulFree_replicate _) rest) rfl ?_ ?_
      rfl rfl (fun unheld => absurd heldFree₁ unheld) hands₁ priv₁) ?_
  · simp [Entry.dlen, Entry.blanked]
  · simp [Entry.text_length, Entry.blanked, Entry.dlen]
  rintro - _ _ ⟨rfl, τ₂, second, rfl⟩
  have blanked := Unchained.blanked ok split free.head first _ second
  generalize τ₂.handOver (handing x (.at (keyPlace key)) (some (.priv p))) = σ₂ at blanked ⊢
  -- the free list starts with it
  refine .get ?_
  have hands₂ : Handing.May σ₂ p (some (x, .priv p, .at .free)) := by
    refine ⟨?_, rfl, blanked.holds heldFree, by simp, ?_⟩
    · simp [blanked.members]
    · rintro place same
      cases same
      trivial
  refine .bind (triple_writeptrSlot (P := .free) (v := x) realH (blanked.holds held)
    trivial (blanked.holds heldFree)
    ((blanked.slot _ (by decide)).trans (if_pos rfl)) small hands₂ ?_) ?_
  · intro y o o' d isHand here
    cases isHand
    rw [blanked.entry, if_pos rfl] at here
    cases here
    exact isBlank_replicate _
  rintro - _ _ ⟨rfl, τ₃, third, rfl⟩
  have freed := blanked.freed third
  generalize τ₃.handOver (some (x, .priv p, .at .free)) = σ₃ at freed ⊢
  -- the chain leads past it
  change Triple _ _ _ _ (dbWriteptr db.ptroff db.ptrval) _ _
  rw [ptroff, ptrval]
  have nobody : Handing.May σ₃ p none := trivial
  refine (triple_relink (P := keyPlace key) realH (freed.holds held) realH (freed.holds held)
    ((freed.slot _ (chainOff_lt realH)).trans ((if_neg (chainOff_ne_freeOff _)).trans ok.head)) ?_
      freed.chain okE.ptr nobody
    (fun _ _ _ _ isHand => by cases isHand)).weaken ?_
  · intro z member
    rw [freed.chain] at member
    rw [freed.entry, if_neg (left z member).2]
    exact ok.records z (left z member).1
  rintro - _ _ ⟨rfl, σ₄, fourth, rfl⟩
  exact ⟨⟨onChain.nhash, onChain.hashoff, onChain.chain⟩,
    .of_relinks ok split free.head freed fourth⟩

/-! ## The operation -/

omit [DecidableEq ι] in
/-- What the delete has made of the chain and of the free list. -/
theorem Deleted.order {before after : List Nat} {x : Nat} {e : Entry} {m : Map}
    (deleted : Deleted p key x e before after σ σ') (inv : Coherent room σ) (free : FreeOk σ)
    (ok : ChainOk σ (dbHash nhashDef key) m)
    (split : σ.chain (dbHash nhashDef key) = before ++ x :: after)
    (found : σ.img.entryAt x = some e) (same : e.key = key) :
    ChainOk σ' (dbHash nhashDef key) (Function.update m key none) ∧ FreeOk σ' := by
  have apart {z : Nat} (member : z ∈ σ.free) : z ∉ σ.chain (dbHash nhashDef key) := by
    intro inChain
    cases inv.sorted.one member inChain
  have inChain : x ∈ σ.chain (dbHash nhashDef key) := by simp [split]
  have left {z : Nat} (member : z ∈ before ++ after) : z ∈ σ.chain (dbHash nhashDef key) ∧
      z ≠ x := by
    have nodup := split ▸ ok.nodup
    rw [List.nodup_middle] at nodup
    refine ⟨?_, fun isX => (List.nodup_cons.1 nodup).1 (isX ▸ member)⟩
    rw [split]
    rcases List.mem_append.1 member with inBefore | inAfter
    · exact List.mem_append_left _ inBefore
    · exact List.mem_append_right _ (List.mem_cons_of_mem _ inAfter)
  constructor
  · rw [← same]
    rw [← same] at split deleted ok left
    exact ok.remove (dbHash_lt _) split found deleted.chain deleted.cell deleted.rest
        fun z member d was =>
      deleted.kept z (left member).2 d was
  · obtain ⟨head, first, now⟩ := deleted.entry
    refine free.push deleted.free deleted.head now (isBlank_replicate _)
      first (fun member => apart member inChain) ?_
    intro z member
    exact deleted.others z (by rintro rfl; exact apart member inChain) fun inList =>
      apart member (left inList).1

/-- The record that has been found goes to the free list. -/
theorem triple_dodelete {before after : List Nat} {x c : Nat} {e : Entry} (onChain : OnChain c db)
    (locked : Locked σ p op key .write σ.map)
    (split : σ.chain (dbHash nhashDef key) = before ++ x :: after)
    (found : σ.img.entryAt x = some e) (same : e.key = key) (current : Current db x e)
    (ptroff : db.ptroff = (lastCell (chainOff (dbHash nhashDef key)) before : Nat)) :
    Triple (discipline room env) p E σ dbDodelete db fun _ db' σ' =>
      OnChain c db' ∧ Locked σ' p op key .write (Function.update σ'.map key none) ∧
        Since p key σ σ' ∧ Coherent room σ' := by
  have inChain : x ∈ σ.chain (dbHash nhashDef key) := by simp [split]
  refine .given fun τ relied inv => ?_
  have okE : e.Ok := relied.okay inv locked.reads inChain found
  obtain ⟨rest, idxbuf⟩ := current.idxbuf
  have keyLength : strlen db.idxbuf = e.key.length := by
    rw [idxbuf, strlen, cstr_append_zero okE.keyClean]
  have blankKey : List.replicate (strlen db.idxbuf) space ++ db.idxbuf.drop (strlen db.idxbuf) =
      List.replicate e.key.length space ++ 0 :: rest := by rw [keyLength, idxbuf, List.drop_left]
  refine .modifyThen ?_
  refine .bind (show Triple (discipline room env) p E σ
    (writewLock .idx freeOff 1 .dodeleteLock) _ _ from
    triple_lock (show File.idx = Place.free.file ∧
      Range.ofLen freeOff 1 = Place.free.range from ⟨rfl, rfl⟩) trivial
      locked.holding (by simp [free_notMem_key])) ?_
  rintro - _ σ₁ ⟨rfl, carries, holding₁, order₁, inv₁, alone₁⟩
  obtain ⟨list, -, -⟩ := carries.same (.at (keyPlace key)) locked.reads
  have ok₁ : ChainOk σ₁ (dbHash nhashDef key) σ₁.map :=
    locked.chain.same (id_local _) (dbHash_lt key) (carries.same (.at (keyPlace key)) locked.reads)
  have split₁ : σ₁.chain (dbHash nhashDef key) = before ++ x :: after := list.members.trans split
  have found₁ : σ₁.img.entryAt x = some e := (list.entries x inChain).trans found
  have held₁ : σ₁.Holds p (keyPlace key) .write :=
    (holding₁ _).2 (List.mem_cons_of_mem _ List.mem_cons_self)
  have heldFree₁ : σ₁.Holds p .free .write := (holding₁ _).2 List.mem_cons_self
  refine .bind (triple_dodeleteWrites (c := c) ⟨onChain.nhash, onChain.hashoff, onChain.chain⟩ inv₁
    held₁ heldFree₁ order₁ ok₁ split₁
    found₁ same current.idxoff current.datoff current.ptrval blankKey ?_ ptroff) ?_
  · dsimp only
    rw [current.datlen]
    rfl
  rintro - db₂ σ₂ ⟨onChain₂, deleted⟩
  obtain ⟨chain₂, free₂⟩ := deleted.order inv₁ order₁ ok₁ split₁ found₁ same
  have holding₂ : Holding σ₂ p [Place.free.lock .write, (keyPlace key).lock .write] := by
    intro l
    rw [deleted.locks]
    exact holding₁ l
  have map₂ : σ₂.map = σ₁.map := by rw [St.map, deleted.obj]
  refine (triple_unlock (show File.idx = Place.free.file ∧
    Range.ofLen freeOff 1 = Place.free.range from ⟨rfl, rfl⟩) trivial
    (by simp) holding₂ (by simp [free_notMem_key]) (fun _ => free₂) fun _ _ => chain₂.live holding₂
      fun k d bound => ?_).weaken ?_
  · rw [Function.update_apply] at bound
    split at bound
    · cases bound
    · rw [map₂]
      exact bound
  · rintro - _ σ₃ ⟨rfl, carries₃, holding₃, inv₃, alone₃⟩
    have reads₂ : σ₂.Reads p (.at (keyPlace key)) :=
      ⟨.write, (holding₂ _).2 (List.mem_cons_of_mem _ List.mem_cons_self)⟩
    obtain ⟨list₃, head₃, map₃⟩ := carries₃.same (.at (keyPlace key)) reads₂
    obtain ⟨own₁, fresh₁⟩ := carries.same (.priv p) rfl
    obtain ⟨own₃, fresh₃⟩ := carries₃.same (.priv p) rfl
    have since₁ : Since p key σ σ₁ := carries.since locked.reads fun only => by
      rw [alone₁ only]
      exact ⟨rfl, rfl, rfl⟩
    have since₂ : Since p key σ₁ σ₂ :=
      ⟨⟨deleted.lost, fun _ => ⟨map₂, deleted.dat, deleted.size⟩⟩, fun k _ => congrFun map₂ k⟩
    have since₃ : Since p key σ₂ σ₃ := carries₃.since reads₂ fun only => by
      rw [alone₃ only]
      exact ⟨rfl, rfl, rfl⟩
    refine ⟨onChain₂, ⟨holding₃, ?_, ⟨?_, ?_⟩, ?_⟩, (since₁.trans since₂).trans since₃, inv₃⟩
    · rw [carries₃.status, deleted.obj, carries.status, locked.status]
    · rw [own₃.members, deleted.own, own₁.members, locked.own.1]
    · rw [fresh₃, deleted.fresh, fresh₁, locked.own.2]
    · refine (chain₂.congr list₃ (head₃ (dbHash_lt key))).rebind fun k hash => ?_
      rw [Function.update_apply, Function.update_apply, map₃ k hash, map₂]

/-! ## The operation -/

/-- An update has had its effect: what it leaves of the handle, of the map and of the lost
records. -/
structure Updated (σ : St ι) (p : ι) (op : Op) (spec : Map → Int × Map) (rc : Int) (db : DB)
    (σ' : St ι) : Prop where
  nhash : db.nhash = nhashDef
  hashoff : db.hashoff = hashOff
  finished : Finished σ' p op (.rc rc)
  lost : σ'.members .lost = σ.members .lost
  alone : Alone p → rc = (spec σ.map).1 ∧ σ'.map = (spec σ.map).2

/-- The chain is unlocked, and the operation answers `rc`; `σ₀` is its start, `σ₁` when it had
locked the chain. -/
theorem triple_unlockUpdated {σ₀ σ₁ : St ι} {rc : Int} {spec : Map → Int × Map} {c : Map → Map}
    {error : Err}
    (start : Until p σ₀ σ₁) (onChain : OnChain (chainOff (dbHash nhashDef key)) db)
    (locked : Locked σ p op key .write (c σ.map))
    (since : Kept p key σ₁ σ) (isLocal : Local (dbHash nhashDef key) c)
    (isSpec : ∀ s : Atomic ι Map Op Res, s.value key = σ₁.map key →
      dbSpec s op (.rc rc) (c s.value) ∧ rc = (spec s.value).1 ∧ c s.value = (spec s.value).2) :
    Triple (discipline room env) p E σ (do unlockChain error; pure rc) db fun r db' σ' =>
      Updated σ₀ p op spec r db' σ' := by
  have here : σ.map key = σ₁.map key := since.map key rfl
  refine .bind (triple_unlockKey (c := c) (r := .rc rc) onChain locked isLocal
    (fun s agrees => (isSpec s (agrees.trans here)).1)
    (fun isRead => by cases isRead)) ?_
  rintro - _ σ' ⟨rfl, -, finished, -, lost, alone⟩
  refine .pure ⟨onChain.nhash, onChain.hashoff, finished, lost.trans (since.lost.trans start.lost),
    fun only => ?_⟩
  have map := since.alone only
  obtain ⟨-, result, after⟩ := isSpec ⟨σ₁.map, σ₁.obj.status⟩ rfl
  rw [← (start.alone only).1]
  refine ⟨result, ?_⟩
  rw [alone only, ← after, ← map]
  rfl

theorem triple_delete (clean : NulFree key) (ready : Ready σ p (.delete key))
    (nhash : db.nhash = nhashDef)
    (hashoff : db.hashoff = hashOff) :
    Triple (discipline room env) p E σ (dbDelete key) db fun rc db' σ' =>
      Updated σ p (.delete key) (mapDelete · key) rc db' σ' := by
  refine .bind (triple_findAndLock clean true ready nhash hashoff) ?_
  rintro r db₁ σ₁ ⟨onChain, locked, visited, located, -, -, lost, alone⟩
  have start : Until p σ σ₁ := ⟨lost.members, fun only => by rw [alone only]; exact ⟨rfl, rfl, rfl⟩⟩
  rcases located with ⟨rfl, before, x, e, after, split, -, found, same, current,
    ptroff⟩ | ⟨rfl, -, absent⟩
  · have bound : σ₁.map key = some e.data := locked.chain.lookup (by simp [split]) found same
    refine .bind (M := fun rc db' σ' => rc = 0 ∧ OnChain (chainOff (dbHash nhashDef key)) db' ∧
      Locked σ' p (.delete key) key .write (Function.update σ'.map key none) ∧
        Since p key σ₁ σ') ?_ ?_
    · unfold deleteFound
      rw [if_pos rfl]
      refine .bind (triple_dodelete onChain locked split found same current ptroff) ?_
      rintro - _ σ₂ ⟨onChain₂, locked₂, since, -⟩
      exact .modifyThen (.pure ⟨rfl, ⟨onChain₂.nhash, onChain₂.hashoff, onChain₂.chain⟩,
        locked₂, since⟩)
    · rintro _ _ σ₂ ⟨rfl, onChain₂, locked₂, since⟩
      refine triple_unlockUpdated start onChain₂ locked₂ since.kept (update_local key none)
        fun s agrees => ?_
      simp [dbSpec, mapDelete, agrees, bound]
  · have unbound : σ₁.map key = none := locked.chain.lookup_none absent
    refine .bind (M := fun rc db' σ' => rc = -1 ∧ OnChain (chainOff (dbHash nhashDef key)) db' ∧
      σ' = σ₁) ?_ ?_
    · exact .modifyThen (.pure ⟨rfl, ⟨onChain.nhash, onChain.hashoff, onChain.chain⟩, rfl⟩)
    · rintro _ _ σ₂ ⟨rfl, onChain₂, isσ₂⟩
      rw [isσ₂]
      refine triple_unlockUpdated (c := id) start onChain₂ locked (Since.refl p key σ₁).kept
        (id_local _) fun s agrees => ?_
      simp [dbSpec, mapDelete, agrees, unbound]

end Apue.Db
