import Apue.Db.Delete

/-! # Storing

The four ways of `db_store`: a record appended, a free record taken again, a record deleted and
appended anew, and data overwritten in place.  A process that stores makes its record on its own,
with the chain locked, and puts it in front of the chain with the last write.
-/

namespace Apue.Db

open Apue.Base St

variable {ι : Type} [DecidableEq ι] {room : Nat} {env : ι → FileCall File → St ι → Prop}
    {E : Err → St ι → Prop} {p : ι}
  {σ σ' : St ι} {db : DB} {key data : Bytes} {op : Op}

/-! ## The free list -/

/-- How the walk along the free list ends: at a record of the right sizes, or at the end. -/
def Offered (σ : St ι) (keylen datlen : Int) (db : DB) (r : Int × Int) : Prop :=
  r.2 = 0 ∨ ∃ (before : List Nat) (x : Nat) (e : Entry) (after : List Nat),
    σ.free = before ++ x :: after ∧
    r.1 = (lastCell freeOff before : Nat) ∧ r.2 = (x : Nat) ∧ σ.img.entryAt x = some e ∧
      Current db x e ∧ e.key.length = sizeT keylen ∧ e.dlen = sizeT datlen

/-- The walk from the middle of the free list, by induction on what is left of it. -/
theorem triple_findfreeLoop (keylen datlen : Int) (reads : σ.Reads p (.at .free)) (ok : FreeOk σ)
    {before after : List Nat}
    {saveoffset offset n : Nat} (split : σ.free = before ++ after)
    (saved : saveoffset = lastCell freeOff before)
    (offsetIs : offset = after.head?.getD 0) {db : DB} {c : Nat} (onChain : OnChain c db) :
    Triple (discipline room env) p E (σ.seek p .idx n)
      (Code.loop (findfreeTurn keylen datlen) ((saveoffset : Int), (offset : Int)))
      db fun r db' σ' => OnChain c db' ∧ Offered σ keylen datlen db' r ∧
        ∃ n, σ' = σ.seek p .idx n := by
  induction after generalizing before saveoffset offset n db with
  | nil =>
    refine .loop ?_
    rw [offsetIs]
    exact .pure ⟨onChain, .inl rfl, n, rfl⟩
  | cons x after inductionHypothesis =>
    have member : x ∈ σ.free := by simp [split]
    obtain ⟨e, found, _⟩ := ok.entries x member
    have nonzero : x ≠ 0 := ok.linked.ne_zero member
    have isX : offset = x := by simpa using offsetIs
    refine .given fun τ relied inv => ?_
    have okE : e.Ok := relied.okay inv (o := .at .free) reads member found
    refine .loop ?_
    rw [isX]
    unfold findfreeTurn
    dsimp only
    rw [if_neg (by exact_mod_cast nonzero)]
    refine .bind (triple_readidx (o := .at .free) reads member found) ?_
    rintro r _ _ ⟨rfl, ⟨rest, rfl⟩, rfl⟩
    refine .get ?_
    have keyLength : strlen (db.load x e rest).idxbuf = e.key.length := by
      simp [strlen, DB.load, cstr_append_zero okE.keyClean]
    rw [keyLength, St.seek_seek]
    split
    case isTrue fits =>
      refine .pure ⟨⟨onChain.nhash, onChain.hashoff, onChain.chain⟩,
        .inr ⟨before, x, e, after, split, ?_, rfl, found, ?_, fits⟩,
        _, rfl⟩
      · rw [saved]
      · exact DB.load_current ..
    case isFalse =>
      refine .pure ?_
      have next : e.ptr = after.head?.getD 0 := by
        have linked := ok.linked
        rw [split] at linked
        exact Option.some.inj ((Image.ptrAt_record found).symm.trans linked.next)
      refine inductionHypothesis (split.trans (List.append_cons before x after)) ?_ next ?_
      · rw [lastCell_append_singleton]
      · exact ⟨onChain.nhash, onChain.hashoff, onChain.chain⟩

/-- The process has a record of its own and the chain of the key, which stands for the bindings
`map`. -/
structure Taken (σ : St ι) (p : ι) (op : Op) (key : Bytes) (x : Nat) (e : Entry)
    (map : Map) : Prop where
  holding : Holding σ p [(keyPlace key).lock .write]
  status : σ.obj.status p = .pending op
  own : σ.members (.priv p) = [x]
  fresh : σ.fresh p = none
  found : σ.img.entryAt x = some e
  chain : ChainOk σ (dbHash nhashDef key) map

/-- The record of the right sizes leaves the free list. -/
theorem triple_findfreeUnlink {keylen datlen : Int} {r : Int × Int}
    (inv : Coherent room σ)
    (holding : Holding σ p [Place.free.lock .write, (keyPlace key).lock .write])
    (ok : FreeOk σ) (offered : Offered σ keylen datlen db r) :
    Triple (discipline room env) p E σ (findfreeUnlink r.1 r.2) db fun rc db' σ' => db' = db ∧
      ((rc = -1 ∧ σ' = σ) ∨ (rc = 0 ∧ ∃ before x e after u, σ.free = before ++ x :: after ∧
        x ≤ ptrMax ∧
        σ.img.entryAt x = some e ∧ Current db x e ∧ e.key.length = sizeT keylen ∧
          e.dlen = sizeT datlen ∧
        Relinks .free (lastCell freeOff before) e.ptr σ u ∧
          σ' = u.handOver (some (x, .at .free, .priv p)))) := by
  have held : σ.Holds p (keyPlace key) .write :=
    (holding _).2 (List.mem_cons_of_mem _ List.mem_cons_self)
  have heldFree : σ.Holds p .free .write := (holding _).2 List.mem_cons_self
  unfold findfreeUnlink
  rcases offered with none | ⟨before, x, e, after, split, saved, isX, found, current,
    keyFits, datFits⟩
  · rw [if_pos none]
    exact .pure ⟨rfl, .inl ⟨rfl, rfl⟩⟩
  · have member : x ∈ σ.free := by simp [split]
    have nonzero : x ≠ 0 := ok.linked.ne_zero member
    obtain ⟨d, found', blank⟩ := ok.entries x member
    rw [found] at found'
    cases found'
    obtain ⟨cellPtr, -, -⟩ := (split ▸ ok.linked : Linked _ _ (before ++ x :: after)).at_cell
    have hands : Handing.May σ p (some (x, .at .free, .priv p)) :=
      ⟨member, heldFree, rfl, by simp, by simp⟩
    rw [isX, saved, if_neg (by exact_mod_cast nonzero)]
    refine .get ?_
    rw [current.ptrval]
    refine .bind (triple_relink (P := .free) (dbHash_lt key) held trivial heldFree ok.head
      ok.records split
      (inv.img.entry found).ptr hands ?_) ?_
    · intro y o o' d isHand here
      cases isHand
      rw [found] at here
      cases here
      intro visible
      rw [blank] at visible
      cases visible
    · rintro - _ _ ⟨rfl, u, relinks, rfl⟩
      exact .pure ⟨rfl, .inr ⟨rfl, before, x, e, after, u, split, inv.img.ptrAt_le cellPtr, found,
        current, keyFits, datFits,
        relinks, rfl⟩⟩

/-- How things stand once the record at `x` has left the free list. -/
theorem Relinks.offer {before after : List Nat} {x : Nat} {e : Entry} {u : St ι} {h : Nat}
    (relinks : Relinks .free (lastCell freeOff before) e.ptr σ u) (sorted : Sorted σ)
    (ok : FreeOk σ)
    (split : σ.free = before ++ x :: after) (found : σ.img.entryAt x = some e)
    (real : h < nhashDef) :
    FreeOk (u.handOver (some (x, .at .free, .priv p))) ∧
      SameList σ (u.handOver (some (x, .at .free, .priv p))) (.at (.chain h)) ∧
      u.img.ptrAt (chainOff h) = σ.img.ptrAt (chainOff h) ∧ u.img.entryAt x = some e := by
  have nodup := split ▸ ok.nodup
  have member : x ∈ σ.free := by simp [split]
  have notBefore : x ∉ before :=
    fun inBefore => (List.nodup_append.1 nodup).2.2 x inBefore x List.mem_cons_self rfl
  have chainSlot : chainOff h ≠ freeOff := by
    simp only [chainOff, hashOff, ptrSz, freeOff]
    omega
  have inFree {z : Nat} (inList : z ∈ before ++ after) : z ∈ σ.free := by
    rw [split]
    rcases List.mem_append.1 inList with inBefore | inAfter
    · exact List.mem_append_left _ inBefore
    · exact List.mem_append_right _ (List.mem_cons_of_mem _ inAfter)
  have free : (u.handOver (some (x, .at .free, .priv p))).free = before ++ after := by
    change (u.move x _ _).members _ = _
    rw [St.move_members, if_neg (by simp), if_pos rfl, relinks.members]
    change σ.free.erase x = _
    rw [split, List.erase_append_right _ notBefore, List.erase_cons_head]
  have notCell : x ≠ lastCell freeOff before := by
    intro same
    rcases lastCell_mem freeOff before with here | there
    · exact ok.linked.ne_zero member (same.trans here)
    · exact notBefore (same ▸ there)
  refine ⟨?_, ⟨?_, fun z inChain => ?_⟩, relinks.slot _ (chainOff_lt real) chainSlot, ?_⟩
  · refine ok.remove split found free ?_ (fun z inList notCell => ?_) fun z inList d was =>
      relinks.found was
    · refine (relinks.ptr _ ?_).trans (if_pos rfl)
      rcases lastCell_mem freeOff before with here | there
      · exact .inl here
      · exact .inr (inFree (List.mem_append_left _ there))
    · refine (relinks.ptr z ?_).trans (if_neg notCell)
      exact inList.imp id inFree
  · change (u.move x _ _).members _ = _
    rw [St.move_members, if_neg (by simp), if_neg (by simp), relinks.members]
  · refine relinks.other z fun alsoFree => ?_
    cases sorted.one inChain alsoFree
  · obtain ⟨v, now⟩ := relinks.found found
    have ptr := (relinks.ptr x (.inr member)).trans
      ((if_neg notCell).trans (Image.ptrAt_record found))
    rw [Image.ptrAt_record now] at ptr
    have isPtr : v = e.ptr := by simpa using ptr
    rw [now, isPtr]
    rfl

/-- A free record of the right sizes is the process's, or there is none. -/
theorem triple_findfree {keylen datlen : Int} {c : Nat} (onChain : OnChain c db)
    (locked : Locked σ p op key .write σ.map) :
    Triple (discipline room env) p E σ (dbFindfree keylen datlen) db fun rc db' σ' =>
      OnChain c db' ∧ Since p key σ σ' ∧ Coherent room σ' ∧
        σ'.chain (dbHash nhashDef key) = σ.chain (dbHash nhashDef key) ∧
      ((rc = -1 ∧ Locked σ' p op key .write σ'.map) ∨
        (rc = 0 ∧ ∃ x e, x ≤ ptrMax ∧ Taken σ' p op key x e σ'.map ∧
        isBlank e.key = true ∧ Current db' x e ∧ e.key.length = sizeT keylen ∧
          e.dlen = sizeT datlen)) := by
  refine .bind (show Triple (discipline room env) p E σ
    (writewLock .idx freeOff 1 .findfreeLock) _ _ from
    triple_lock (show File.idx = Place.free.file ∧
      Range.ofLen freeOff 1 = Place.free.range from ⟨rfl, rfl⟩) trivial
      locked.holding (by simp [free_notMem_key])) ?_
  rintro - _ σ₁ ⟨rfl, carries, holding₁, order₁, inv₁, alone₁⟩
  obtain ⟨list, -, -⟩ := carries.same (.at (keyPlace key)) locked.reads
  obtain ⟨own₁, fresh₁⟩ := carries.same (.priv p) rfl
  have ok₁ : ChainOk σ₁ (dbHash nhashDef key) σ₁.map :=
    locked.chain.same (id_local _) (dbHash_lt key) (carries.same (.at (keyPlace key)) locked.reads)
  have free₁ : FreeOk σ₁ := order₁
  have reads₁ : σ₁.Reads p (.at .free) := ⟨.write, (holding₁ _).2 List.mem_cons_self⟩
  have since₁ : Since p key σ σ₁ := carries.since locked.reads fun only => by
    rw [alone₁ only]
    exact ⟨rfl, rfl, rfl⟩
  refine .bind (triple_readptr (P := .free) trivial reads₁ free₁.head) ?_
  rintro _ _ _ ⟨rfl, rfl, rfl, -⟩
  refine .bind (triple_findfreeLoop keylen datlen reads₁ free₁ (List.nil_append _).symm
    rfl rfl onChain) ?_
  rintro r db₂ _ ⟨onChain₂, offered, n, rfl⟩
  refine .bind (triple_findfreeUnlink (inv₁.seek p .idx n) holding₁ ⟨free₁.linked, free₁.nodup,
    free₁.entries⟩ offered) ?_
  rintro rc _ σ₂ ⟨rfl, taken⟩
  -- the two cases agree on all but the record that is taken
  have agrees : σ₂.w.locks = σ₁.w.locks ∧ σ₂.obj = σ₁.obj ∧ σ₂.fresh = σ₁.fresh ∧ FreeOk σ₂ ∧
      SameList σ₁ σ₂ (.at (keyPlace key)) ∧
      σ₂.img.ptrAt (chainOff (dbHash nhashDef key)) =
        σ₁.img.ptrAt (chainOff (dbHash nhashDef key)) ∧
      σ₂.members .lost = σ₁.members .lost ∧ σ₂.dat.length = σ₁.dat.length ∧
        σ₂.img.size = σ₁.img.size := by
    rcases taken with ⟨-, rfl⟩ | ⟨-, before, x, e, after, u, split, -, found, -, -, -, relinks, rfl⟩
    · exact ⟨rfl, rfl, rfl, ⟨free₁.linked, free₁.nodup, free₁.entries⟩, ⟨rfl, fun _ _ => rfl⟩, rfl,
        rfl, rfl, rfl⟩
    · have sorted : Sorted (σ₁.seek p .idx n) := (inv₁.seek p .idx n).sorted
      obtain ⟨free₂, chain₂, slot₂, -⟩ :=
        relinks.offer (p := p) sorted ⟨free₁.linked, free₁.nodup, free₁.entries⟩ split found
        (dbHash_lt key)
      have lost : (u.move x (.at .free) (.priv p)).members .lost = σ₁.members .lost := by
        rw [St.move_members, if_neg (by simp), if_neg (by simp), relinks.members]
        rfl
      exact ⟨relinks.locks, relinks.obj, relinks.fresh, free₂, ⟨chain₂.members, chain₂.entries⟩,
        slot₂, lost, relinks.dat,
        relinks.size⟩
  obtain ⟨locks₂, obj₂, fresh₂, free₂, chain₂, slot₂, lost₂, dat₂, size₂⟩ := agrees
  have holding₂ : Holding σ₂ p [Place.free.lock .write, (keyPlace key).lock .write] := by
    intro l
    rw [locks₂]
    exact holding₁ l
  have map₂ : σ₂.map = σ₁.map := by rw [St.map, obj₂]
  have ok₂ : ChainOk σ₂ (dbHash nhashDef key) σ₂.map := by
    rw [map₂]
    exact ok₁.congr chain₂ slot₂
  have since₂ : Since p key σ₁ σ₂ :=
    ⟨⟨lost₂, fun _ => ⟨map₂, dat₂, size₂⟩⟩, fun k _ => congrFun map₂ k⟩
  refine .bind (triple_unlock (show File.idx = Place.free.file ∧
    Range.ofLen freeOff 1 = Place.free.range from ⟨rfl, rfl⟩)
    trivial (by simp) holding₂ (by simp [free_notMem_key]) (fun _ => free₂) fun _ _ =>
      ok₂.live holding₂ fun _ _ => id) ?_
  rintro - _ σ₃ ⟨rfl, carries₃, holding₃, inv₃, alone₃⟩
  have reads₂ : σ₂.Reads p (.at (keyPlace key)) :=
    ⟨.write, (holding₂ _).2 (List.mem_cons_of_mem _ List.mem_cons_self)⟩
  obtain ⟨list₃, -, -⟩ := carries₃.same (.at (keyPlace key)) reads₂
  obtain ⟨own₃, fresh₃⟩ := carries₃.same (.priv p) rfl
  have since₃ : Since p key σ₂ σ₃ := carries₃.since reads₂ fun only => by
    rw [alone₃ only]
    exact ⟨rfl, rfl, rfl⟩
  have ok₃ : ChainOk σ₃ (dbHash nhashDef key) σ₃.map :=
    ok₂.same (id_local _) (dbHash_lt key) (carries₃.same (.at (keyPlace key)) reads₂)
  have status₃ : σ₃.obj.status p = .pending op := by
    rw [carries₃.status, obj₂, carries.status, locked.status]
  have freshNone : σ₃.fresh p = none := by rw [fresh₃, fresh₂, fresh₁, locked.own.2]
  have chains : σ₃.chain (dbHash nhashDef key) = σ.chain (dbHash nhashDef key) :=
    list₃.members.trans (chain₂.members.trans list.members)
  refine .pure ⟨onChain₂, (since₁.trans since₂).trans since₃, inv₃, chains, ?_⟩
  rcases taken with ⟨rfl, rfl⟩ | ⟨rfl, before, x, e, after, u, split, small, found, current,
    keyFits, datFits, relinks, rfl⟩
  · exact .inl ⟨rfl, holding₃, status₃, ⟨own₃.members.trans (own₁.members.trans locked.own.1),
      freshNone⟩, ok₃⟩
  · have sorted : Sorted (σ₁.seek p .idx n) := (inv₁.seek p .idx n).sorted
    obtain ⟨-, -, -, found₂⟩ :=
      relinks.offer (p := p) sorted ⟨free₁.linked, free₁.nodup, free₁.entries⟩ split found
      (dbHash_lt key)
    obtain ⟨d, found', blank⟩ :=
      free₁.entries x (show x ∈ σ₁.free by rw [show σ₁.free = _ from split]; simp)
    rw [show σ₁.img.entryAt x = some e from found] at found'
    cases found'
    have priv₂ : (u.move x (.at .free) (.priv p)).members (.priv p) = [x] := by
      rw [St.move_members, if_pos rfl, relinks.members]
      exact congrArg _ (own₁.members.trans locked.own.1)
    refine .inr ⟨rfl, x, e, small, ⟨holding₃, status₃, own₃.members.trans priv₂, freshNone, ?_,
      ok₃⟩, blank, current, keyFits,
      datFits⟩
    have member : x ∈ (u.handOver (some (x, .at .free, .priv p))).members (.priv p) := by
      rw [show (u.handOver (some (x, .at .free, .priv p))).members (.priv p) = [x] from priv₂]
      exact List.mem_singleton_self x
    exact (own₃.entries x member).trans found₂

/-! ## Putting the record in front of the chain -/

theorem triple_link {x : Nat} {e : Entry} {m : Map} {flag : Flag}
    (taken : Taken σ p (.store key data flag) key x e m)
    (isKey : e.key = key) (isData : e.data = data) (unbound : m key = none)
    (next : σ.img.ptrAt (chainOff (dbHash nhashDef key)) = some e.ptr) (small : x ≤ ptrMax) :
    Triple (discipline room env) p E σ (dbWriteptr (chainOff (dbHash nhashDef key) : Nat) x) db
        fun _ db' σ' =>
      db' = db ∧ Locked σ' p (.store key data flag) key .write (Function.update m key (some data)) ∧
        Since p key σ σ' := by
  subst isKey isData
  have held : σ.Holds p (keyPlace e.key) .write := (taken.holding _).2 List.mem_cons_self
  refine .given fun τ relied inv => ?_
  have new : x ∉ σ.chain (dbHash nhashDef e.key) := by
    intro member
    have inChain := (relied.same (.at (keyPlace e.key)) ⟨.write, held⟩).list.mem.2 member
    have inOwn := (relied.same (.priv p) rfl).list.mem.2
      (show x ∈ σ.members (.priv p) by rw [taken.own]; simp)
    cases inv.sorted.one inChain inOwn
  have hands : Handing.May σ p (some (x, .priv p, .at (keyPlace e.key))) := by
    refine ⟨by rw [taken.own]; simp, rfl, held, by simp, ?_⟩
    rintro place same
    cases same
    exact dbHash_lt e.key
  refine (triple_writeptrSlot (P := keyPlace e.key) (dbHash_lt e.key) held (dbHash_lt e.key) held
    next small hands ?_).weaken ?_
  · intro y o o' d isHand here
    cases isHand
    rw [taken.found] at here
    cases here
    exact ⟨rfl, fun _ => .inr (.inl ⟨flag, taken.status⟩)⟩
  · rintro - _ _ ⟨rfl, u, repoints, rfl⟩
    have members (o : Owner ι) : (u.move x (.priv p) (.at (keyPlace e.key))).members o = _ :=
      St.move_members o
    have chain : (u.move x (.priv p) (.at (keyPlace e.key))).chain (dbHash nhashDef e.key) =
        x :: σ.chain (dbHash nhashDef e.key) := by
      refine (members _).trans ((if_pos rfl).trans ?_)
      rw [repoints.members]
      rfl
    refine ⟨rfl, ⟨fun l => ?_, ?_, ⟨?_, ?_⟩, ?_⟩, ⟨⟨?_, fun _ => ⟨?_, ?_, ?_⟩⟩, fun k _ => ?_⟩⟩
    · rw [St.handOver_w, repoints.locks]
      exact taken.holding l
    · rw [St.handOver_obj, repoints.obj]
      exact taken.status
    · refine (members _).trans ?_
      rw [if_neg (by simp), if_pos rfl, repoints.members, taken.own, List.erase_cons_head]
    · rw [St.handOver_fresh, repoints.fresh, taken.fresh]
    · refine taken.chain.push unbound rfl chain ?_ ((repoints.entry x).trans taken.found)
        next new fun z _ => repoints.entry z
      exact (repoints.slot _ (chainOff_lt (dbHash_lt _))).trans (if_pos rfl)
    · refine (members _).trans ?_
      rw [if_neg (by simp), if_neg (by simp), repoints.members]
    · rw [St.map, St.handOver_obj, repoints.obj]
    · rw [St.dat, St.handOver_w]
      exact congrArg _ repoints.dat
    · rw [St.handOver_img, repoints.size]
    · rw [St.map, St.handOver_obj, repoints.obj]

/-! ## Taking a free record again -/

/-- `_db_writeidx` refuses a text that is too long or too short. -/
theorem triple_writeidxRefused {buffer : Bytes} {offset : Int} {whence : Whence} {v : Nat}
    {post : Unit → DB → St ι → Prop}
    (small : v ≤ ptrMax)
    (bad : ¬(idxlenMin ≤ (idxText (cstr buffer) db.datoff db.datlen).length ∧
      (idxText (cstr buffer) db.datoff db.datlen).length ≤ idxlenMax))
    (overrun : idxlenMax + 2 < (idxText (cstr buffer) db.datoff db.datlen).length + 1 →
    E .idxbufOverrun σ)
    (refused : (idxText (cstr buffer) db.datoff db.datlen).length + 1 ≤ idxlenMax + 2 →
    E .writeidxLength σ) :
    Triple (discipline room env) p E σ (dbWriteidx buffer offset whence v) db post := by
  refine .modifyThen ?_
  rw [if_neg (by omega)]
  refine .get ?_
  dsimp only
  split
  case isTrue long => exact .abort (overrun long)
  case isFalse short =>
    refine .modifyThen ?_
    rw [if_pos (by omega)]
    exact .abort (refused (by omega))

theorem triple_storeReuse {x v : Nat} {e : Entry} {flag : Flag}
    (onChain : OnChain (chainOff (dbHash nhashDef key)) db)
    (inv : Coherent room σ) (taken : Taken σ p (.store key data flag) key x e σ.map)
    (blank : isBlank e.key = true)
    (current : Current db x e) (keyFits : e.key.length = sizeT (cInt key.length))
    (datFits : e.dlen = data.length + 1)
    (small : x ≤ ptrMax) (unbound : σ.map key = none)
    (next : σ.img.ptrAt (chainOff (dbHash nhashDef key)) = some v)
    (keyClean : NulFree key) (keySep : sep ∉ key) (dataClean : NulFree data)
    (huge : 2 ^ 31 ≤ key.length → ∀ σ', E .idxbufOverrun σ') :
    Triple (discipline room env) p E σ (storeReuse key data v) db fun _ db' σ' =>
      OnChain (chainOff (dbHash nhashDef key)) db' ∧
      Locked σ' p (.store key data flag) key .write (Function.update σ'.map key (some data)) ∧
        Since p key σ σ' := by
  have held : σ.Holds p (keyPlace key) .write := (taken.holding _).2 List.mem_cons_self
  have own : x ∈ σ.members (.priv p) := by rw [taken.own]; simp
  have okE : e.Ok := inv.img.entry taken.found
  have there : HasAt σ.dat e.doff (e.data ++ [newline]) :=
    inv.stored.there (a := .entry x) (by simp [St.extent, taken.found])
  have smallV : v ≤ ptrMax := inv.img.ptrAt_le next
  have dataLength : data.length = e.data.length := by
    simp only [Entry.dlen] at datFits
    omega
  have stillBlank (d : Entry) (sameKey : d.key = e.key) : Fine σ p d (.priv p) := by
    intro visible
    rw [sameKey, blank] at visible
    cases visible
  refine .get ?_
  rw [current.datoff]
  refine .bind (triple_writedatAt (d := data) (o := .priv p) (dbHash_lt key) held
    (cstr_of_nulFree dataClean) dataLength own rfl
    taken.found there (stillBlank _ rfl)) ?_
  rintro - _ σ₁ ⟨rfl, first⟩
  refine .get ?_
  dsimp only
  rw [current.idxoff]
  by_cases isHuge : 2 ^ 31 ≤ key.length
  · -- the length of the key does not fit an `int`
    have long : idxlenMax + 2 < (idxText (cstr key) e.doff e.dlen).length + 1 := by
      rw [cstr_of_nulFree keyClean]
      simp only [idxText, List.length_append, idxlenMax]
      omega
    refine .bind (M := fun _ _ _ => False) (triple_writeidxRefused smallV ?_
      (fun _ => huge isHuge _) ?_) (by simp)
    · dsimp only
      omega
    · exact fun short => absurd short (Nat.not_le.2 long)
  · have keyLength : e.key.length = key.length := by
      rw [keyFits, cInt_of_small (by omega), sizeT_natCast (by omega)]
    let e' : Entry := ⟨v, key, e.doff, data⟩
    have length : e'.text.length = e.text.length := by
      simp [Entry.text_length, e', Entry.dlen, keyLength, dataLength]
    have ok' : e'.Ok :=
      ⟨smallV, keyClean, keySep, length ▸ okE.textMin, length ▸ okE.textMax, okE.doff, dataClean,
      dataLength ▸ okE.dataMin, dataLength ▸ okE.dataMax⟩
    have held₁ : σ₁.Holds p (keyPlace key) .write := (St.holds_congr first.locks).2 held
    have own₁ : x ∈ σ₁.members (.priv p) := by rw [first.members]; exact own
    have found₁ : σ₁.img.entryAt x = some { e with data := data } := by rw [first.entry, if_pos rfl]
    have storing₁ : Fine σ₁ p e' (.priv p) := by
      refine fun _ => ⟨flag, ?_⟩
      rw [first.obj]
      exact taken.status
    have nobody : (handing x (.priv p) none).May σ₁ p := trivial
    refine .bind (triple_writeidxAt (dbHash_lt key) held₁ own₁ rfl found₁ ok'
      (cstr_of_nulFree keyClean) rfl ?_ ?_ rfl rfl
      (fun _ visible => ?_) nobody storing₁) ?_
    · simp [Entry.dlen, e', dataLength]
    · rw [length, e.text_data dataLength]
    · rw [show ({ e with data := data } : Entry).key = e.key from rfl, blank] at visible
      cases visible
    · rintro - _ σ₂ ⟨rfl, _, second, rfl⟩
      have notX {z : Nat} (member : z ∈ σ.chain (dbHash nhashDef key)) : z ≠ x := by
        rintro rfl
        cases inv.sorted.one member own
      have entries (z : Nat) (other : z ≠ x) : σ₂.img.entryAt z = σ.img.entryAt z := by
        rw [second.entry, if_neg other, first.entry, if_neg other]
      have slot : σ₂.img.ptrAt (chainOff (dbHash nhashDef key)) =
          σ.img.ptrAt (chainOff (dbHash nhashDef key)) :=
        (second.slot _ (chainOff_lt (dbHash_lt key))).trans
          (first.slot _ (chainOff_lt (dbHash_lt key)))
      have members : σ₂.members = σ.members := second.members.trans first.members
      have obj : σ₂.obj = σ.obj := second.obj.trans first.obj
      have taken₂ : Taken σ₂ p (.store key data flag) key x e' σ.map := by
        refine ⟨fun l => ?_, ?_, ?_, ?_, ?_, ?_⟩
        · rw [second.locks, first.locks]
          exact taken.holding l
        · rw [obj]
          exact taken.status
        · rw [members]
          exact taken.own
        · rw [second.fresh, first.fresh]
          exact taken.fresh
        · rw [second.entry, if_pos rfl]
        · exact taken.chain.congr ⟨congrFun members _, fun z member => entries z (notX member)⟩ slot
      have since₂ : Since p key σ σ₂ :=
        ⟨⟨congrFun members _,
          fun _ => ⟨by rw [St.map, obj], second.dat.trans first.dat, second.size.trans first.size⟩⟩,
          fun k _ => by rw [St.map, obj]⟩
      refine .get ?_
      change Triple _ _ _ σ₂ (dbWriteptr db.chainoff x) _ _
      rw [onChain.chain]
      refine (triple_link taken₂ rfl rfl unbound (slot.trans next) small).weaken ?_
      rintro - _ σ₃ ⟨rfl, locked, since⟩
      refine ⟨⟨onChain.nhash, onChain.hashoff, rfl⟩, ?_, since₂.trans since⟩
      refine ⟨locked.holding, locked.status, locked.own, locked.chain.rebind fun k hash => ?_⟩
      rw [Function.update_apply, Function.update_apply, (since₂.trans since).map k hash]

/-! ## Appending -/

/-- The index record of the key and the data, with the data at `doff`, has a valid length. -/
def Fits (key data : Bytes) (doff : Nat) : Prop :=
  idxlenMin ≤ (idxText key doff (data.length + 1)).length ∧
    (idxText key doff (data.length + 1)).length ≤ idxlenMax

instance (key data : Bytes) (doff : Nat) : Decidable (Fits key data doff) :=
  inferInstanceAs (Decidable (_ ∧ _))

/-- The process, inside the operation, is about to append to the data file. -/
structure AtDatEnd (σ₀ σ : St ι) (p : ι) (op : Op) : Prop where
  status : σ.obj.status p = .pending op
  pos : σ.w.pos p .dat = σ.dat.length
  alone : Alone p → σ.dat.length = σ₀.dat.length

/-- The process, inside the operation, is about to append to the index file. -/
structure AtIdxEnd (σ₀ σ : St ι) (p : ι) (op : Op) : Prop where
  status : σ.obj.status p = .pending op
  pos : σ.w.pos p .idx = σ.img.size
  alone : Alone p → σ.img.size = σ₀.img.size

/-- The process stops inside a store of the key: the chain is in order, without the key. -/
structure Halted (σ₀ σ : St ι) (p : ι) (op : Op) (key : Bytes) : Prop where
  holding : Holding σ p [(keyPlace key).lock .write]
  status : σ.obj.status p = .pending op
  chain : ChainOk σ (dbHash nhashDef key) (Function.update σ.map key none)
  lost : σ.members .lost = σ₀.members .lost
  alone : Alone p → σ.map = σ₀.map

/-- The limits of the format: either a write is within them, or it is said how the store may
stop. -/
structure Limit (room : Nat) (env : ι → FileCall File → St ι → Prop) (E : Err → St ι → Prop) (p : ι)
    (key data : Bytes)
    (flag : Flag) (σ₀ : St ι) : Prop where
  sized : ∀ {τ : St ι}, env p (.write .dat (data ++ [newline])) τ →
    AtDatEnd σ₀ τ p (.store key data flag) →
    τ.dat.length < 2 ^ 63
  long : ∀ {τ σ : St ι} {error : Err}, env p (.write .dat (data ++ [newline])) τ →
    AtDatEnd σ₀ τ p (.store key data flag) → ¬Fits key data τ.dat.length →
      Halted σ₀ σ p (.store key data flag) key →
    σ.members (.priv p) = [] → error = .writeidxLength ∨ error = .idxbufOverrun → E error σ
  roomy : ∀ {τ : St ι} {e : Entry}, env p (.write .idx e.enc) τ →
    AtIdxEnd σ₀ τ p (.store key data flag) →
    e.text.length ≤ idxlenMax → τ.img.size + 11 + e.text.length ≤ room
  far : ∀ {τ σ : St ι} {e : Entry} {x : Nat}, env p (.write .idx e.enc) τ →
    AtIdxEnd σ₀ τ p (.store key data flag) →
    ptrMax < τ.img.size → (Alone p → Fits key data σ₀.dat.length) →
      Halted σ₀ σ p (.store key data flag) key →
    σ.members (.priv p) = [x] → σ.img.entryAt x = some e → e.key = key → e.data = data →
      E .writeptrPtr σ
  huge : 2 ^ 31 ≤ key.length → ∀ σ, E .idxbufOverrun σ

/-- The bytes a string stands for as a key and as data. -/
structure Storable (key data : Bytes) : Prop where
  keyClean : NulFree key
  keySep : sep ∉ key
  dataClean : NulFree data
  dataMin : 1 ≤ data.length
  dataMax : data.length < datlenMax

instance (key data : Bytes) : Decidable (Storable key data) :=
  decidable_of_iff (NulFree key ∧ sep ∉ key ∧ NulFree data ∧ 1 ≤ data.length ∧
    data.length < datlenMax)
    ⟨fun ⟨keyClean, keySep, dataClean, dataMin, dataMax⟩ =>
      ⟨keyClean, keySep, dataClean, dataMin, dataMax⟩,
      fun storable => ⟨storable.keyClean, storable.keySep, storable.dataClean, storable.dataMin,
        storable.dataMax⟩⟩

/-- The length of the data record, as it comes out of the `int` that `db_store` passes on. -/
theorem Storable.datlen (storable : Storable key data) :
    sizeT (cInt (data.length + 1 : Nat)) = data.length + 1 := by
  have short := storable.dataMax
  simp only [datlenMax] at short
  rw [cInt_of_small (by omega), sizeT_natCast (by omega)]

theorem triple_storeAppend {v : Nat} {flag : Flag} {σ₀ : St ι}
    (onChain : OnChain (chainOff (dbHash nhashDef key)) db)
    (storable : Storable key data) (limit : Limit room env E p key data flag σ₀)
    (start : Until p σ₀ σ)
    (locked : Locked σ p (.store key data flag) key .write (Function.update σ.map key none))
    (next : σ.img.ptrAt (chainOff (dbHash nhashDef key)) = some v) (smallV : v ≤ ptrMax) :
    Triple (discipline room env) p E σ (storeAppend key data v) db fun _ db' σ' =>
      OnChain (chainOff (dbHash nhashDef key)) db' ∧
      Locked σ' p (.store key data flag) key .write (Function.update σ'.map key (some data)) ∧
        Kept p key σ σ' := by
  have held : σ.Holds p (keyPlace key) .write := (locked.holding _).2 List.mem_cons_self
  have notChain {place : Place} (real : place.Real) (other : ∀ h, place ≠ .chain h)
      (type : LockType) :
      place.lock type ∉ [(keyPlace key).lock .write] := by
    intro member
    rw [List.mem_singleton] at member
    exact other _ (Place.lock_inj real (keyPlace_real key) member).1
  refine .bind (triple_appendData locked.holding (notChain trivial (by simp)) (dbHash_lt key) held
    storable.dataClean ?_) ?_
  · have := storable.dataMax
    simp only [datlenMax, writeMax] at *
    omega
  rintro - _ σ₁ ⟨τ, rfl, holding₁, onward, own, fresh, inv₁, given, status, pos, alone⟩
  have atEnd : AtDatEnd σ₀ τ p (.store key data flag) := by
    refine ⟨status.trans locked.status, pos, fun only => ?_⟩
    rw [(alone only).1]
    exact (start.alone only).2.1
  have same := onward.same (keyPlace key) (dbHash_lt key) ⟨.write, held⟩
  have head := same.2.1
  have map := same.2.2
  have chain₁ : ChainOk σ₁ (dbHash nhashDef key) (Function.update σ₁.map key none) :=
    locked.chain.same (update_local key none) (dbHash_lt key) same
  have status₁ : σ₁.obj.status p = .pending (.store key data flag) :=
    onward.status.trans locked.status
  have halted : Halted σ₀ σ₁ p (.store key data flag) key :=
    ⟨holding₁, status₁, chain₁, onward.lost.members.trans start.lost, fun only =>
      (onward.alone only).trans (start.alone only).1⟩
  by_cases fits : Fits key data τ.dat.length
  · let e : Entry := ⟨v, key, τ.dat.length, data⟩
    have ok : e.Ok := ⟨smallV, storable.keyClean, storable.keySep, fits.1, fits.2,
      limit.sized given atEnd, storable.dataClean,
      storable.dataMin, storable.dataMax⟩
    have held₁ : σ₁.Holds p (keyPlace key) .write := (holding₁ _).2 List.mem_cons_self
    have size (only : Alone p) : σ₁.img.size = σ₀.img.size := by
      rw [(alone only).2]
      exact (start.alone only).2.2
    refine .bind (triple_appendEntry (e := e) holding₁ (notChain trivial (by simp))
      (dbHash_lt key) held₁ ok
      (cstr_of_nulFree storable.keyClean)
        rfl rfl onChain.nhash (own.members.trans locked.own.1) fresh
      (fun _ => ⟨flag, status₁⟩) fun τ' given' status' pos' alone' => ?_) ?_
    · refine limit.roomy given' ⟨status'.trans status₁, pos', fun only => ?_⟩ fits.2
      rw [alone' only]
      exact size only
    · rintro - _ σ₂ ⟨τ', rfl, holding₂, onward₂, own₂, found₂, fresh₂, inv₂, given', status',
        pos', alone'⟩
      have same₂ := onward₂.same (keyPlace key) (dbHash_lt key) ⟨.write, held₁⟩
      have head₂ := same₂.2.1
      have map₂ := same₂.2.2
      have chain₂ : ChainOk σ₂ (dbHash nhashDef key) (Function.update σ₂.map key none) :=
        chain₁.same (update_local key none) (dbHash_lt key) same₂
      have status₂ : σ₂.obj.status p = .pending (.store key data flag) :=
        onward₂.status.trans status₁
      have lost₂ : σ₂.members .lost = σ.members .lost :=
        onward₂.lost.members.trans onward.lost.members
      have mapAlone (only : Alone p) : σ₂.map = σ.map :=
        (onward₂.alone only).trans (onward.alone only)
      refine .get ?_
      change Triple _ _ _ σ₂ (dbWriteptr db.chainoff (τ'.img.size : Nat)) _ _
      rw [onChain.chain]
      by_cases near : τ'.img.size ≤ ptrMax
      · have taken : Taken σ₂ p (.store key data flag) key τ'.img.size e
            (Function.update σ₂.map key none) :=
          ⟨holding₂, status₂, own₂, fresh₂, found₂, chain₂⟩
        have next₂ : σ₂.img.ptrAt (chainOff (dbHash nhashDef key)) = some e.ptr :=
          (head₂ (dbHash_lt key)).trans ((head (dbHash_lt key)).trans next)
        refine (triple_link taken rfl rfl (Function.update_self ..) next₂ near).weaken ?_
        rintro - _ σ₃ ⟨rfl, locked₃, since⟩
        refine ⟨⟨onChain.nhash, onChain.hashoff, rfl⟩, ?_, since.lost.trans lost₂, fun k hash => ?_,
          fun only => ?_⟩
        · refine ⟨locked₃.holding, locked₃.status, locked₃.own,
            locked₃.chain.rebind fun k hash => ?_⟩
          rw [Function.update_idem, Function.update_apply, Function.update_apply, since.map k hash]
        · rw [since.map k hash, map₂ k hash, map k hash]
        · exact (since.alone only).1.trans (mapAlone only)
      · unfold dbWriteptr
        rw [if_pos (by omega)]
        refine .abort (limit.far given' ⟨status'.trans status₁, pos', fun only => ?_⟩ (by omega)
          (fun only => ?_)
          ⟨holding₂, status₂, chain₂, lost₂.trans start.lost,
            fun only => (mapAlone only).trans (start.alone only).1⟩
          own₂ found₂ rfl rfl)
        · rw [(alone' only).1]
          exact size only
        · rw [← atEnd.alone only]
          exact fits
  · refine .bind (M := fun _ _ _ => False) (triple_writeidxRefused smallV ?_ (fun _ => ?_) fun _ =>
      ?_) (by simp)
    · rw [cstr_of_nulFree storable.keyClean]
      exact fits
    · exact limit.long given atEnd fits halted (own.members.trans locked.own.1) (.inr rfl)
    · exact limit.long given atEnd fits halted (own.members.trans locked.own.1) (.inl rfl)

/-! ## The operation -/

section

variable {flag : Flag} {σ₀ : St ι}

/-- The state of a store that has bound the key. -/
def Rebound (σ : St ι) (p : ι) (key data : Bytes) (flag : Flag) (db : DB) (σ' : St ι) : Prop :=
  OnChain (chainOff (dbHash nhashDef key)) db ∧
    Locked σ' p (.store key data flag) key .write (Function.update σ'.map key (some data)) ∧
      Kept p key σ σ'

theorem triple_storeNew (onChain : OnChain (chainOff (dbHash nhashDef key)) db)
    (storable : Storable key data)
    (limit : Limit room env E p key data flag σ₀) (start : Until p σ₀ σ)
    (locked : Locked σ p (.store key data flag) key .write σ.map) (unbound : σ.map key = none) :
    Triple (discipline room env) p E σ
        (dbStoreNew key data (cInt key.length) (cInt (data.length + 1 : Nat))) db fun _ db' σ' =>
      Rebound σ p key data flag db' σ' := by
  have reads : σ.Reads p (.at (keyPlace key)) := locked.reads
  have datlen := storable.datlen
  refine .get ?_
  rw [onChain.chain]
  refine .bind (triple_readptr (P := keyPlace key) (dbHash_lt key) reads locked.chain.head) ?_
  rintro _ _ _ ⟨rfl, rfl, rfl, smallV⟩
  refine .bind (triple_findfree onChain (locked.seek _ _)) ?_
  rintro rc db₂ σ₂ ⟨onChain₂, since, inv₂, chains, cases⟩
  have unbound₂ : σ₂.map key = none := (since.map key rfl).trans unbound
  have next {m : Map} (ok : ChainOk σ₂ (dbHash nhashDef key) m) :
      σ₂.img.ptrAt (chainOff (dbHash nhashDef key)) =
        some ((σ.chain (dbHash nhashDef key)).head?.getD 0) := by
    rw [ok.head, chains]
    rfl
  have since' : Since p key σ σ₂ := ⟨⟨since.lost, since.alone⟩, since.map⟩
  rcases cases with ⟨rfl, locked₂⟩ | ⟨rfl, x, e, small, taken, blank, current, keyFits, datFits⟩
  · rw [if_pos (by decide)]
    have without : Locked σ₂ p (.store key data flag) key .write
        (Function.update σ₂.map key none) := by
      rw [← unbound₂, Function.update_eq_self]
      exact locked₂
    refine .bind (triple_storeAppend onChain₂ storable limit (start.trans since'.toUntil) without
      (next locked₂.chain) smallV) ?_
    rintro - _ σ₃ ⟨onChain₃, locked₃, kept⟩
    exact .modified ⟨⟨onChain₃.nhash, onChain₃.hashoff, onChain₃.chain⟩, locked₃,
      since'.kept.trans kept⟩
  · rw [if_neg (by decide)]
    refine .bind (triple_storeReuse onChain₂ inv₂ taken blank current keyFits (datFits.trans datlen)
      small unbound₂
      (next taken.chain) storable.keyClean storable.keySep storable.dataClean limit.huge) ?_
    rintro - _ σ₃ ⟨onChain₃, locked₃, since₃⟩
    exact .modified ⟨⟨onChain₃.nhash, onChain₃.hashoff, onChain₃.chain⟩, locked₃,
      (since'.trans since₃).kept⟩

theorem triple_storeOld {before after : List Nat} {x : Nat} {e : Entry}
    (onChain : OnChain (chainOff (dbHash nhashDef key)) db) (inv : Coherent room σ)
    (storable : Storable key data)
    (limit : Limit room env E p key data flag σ₀) (start : Until p σ₀ σ)
    (locked : Locked σ p (.store key data flag) key .write σ.map)
    (split : σ.chain (dbHash nhashDef key) = before ++ x :: after)
    (found : σ.img.entryAt x = some e) (same : e.key = key)
    (current : Current db x e)
    (ptroff : db.ptroff = (lastCell (chainOff (dbHash nhashDef key)) before : Nat)) :
    Triple (discipline room env) p E σ (dbStoreOld key data (cInt (data.length + 1 : Nat))) db
        fun _ db' σ' =>
      Rebound σ p key data flag db' σ' := by
  have held : σ.Holds p (keyPlace key) .write := (locked.holding _).2 List.mem_cons_self
  have datlen := storable.datlen
  refine .get ?_
  rw [datlen, current.datlen]
  split
  case isTrue different =>
    refine .bind (triple_dodelete onChain locked split found same current ptroff) ?_
    rintro - db₂ σ₂ ⟨onChain₂, locked₂, since, inv₂⟩
    refine .get ?_
    rw [onChain₂.chain]
    refine .bind (triple_readptr (P := keyPlace key) (dbHash_lt key) locked₂.reads
      locked₂.chain.head) ?_
    rintro _ _ _ ⟨rfl, rfl, rfl, smallV⟩
    have since' : Since p key σ (σ₂.seek p .idx ((keyPlace key).slot + ptrSz)) :=
      ⟨⟨since.lost, since.alone⟩, since.map⟩
    refine .bind (triple_storeAppend onChain₂ storable limit (start.trans since'.toUntil)
      (locked₂.seek _ _)
      locked₂.chain.head smallV) ?_
    rintro - _ σ₃ ⟨onChain₃, locked₃, kept⟩
    exact .modified ⟨⟨onChain₃.nhash, onChain₃.hashoff, onChain₃.chain⟩, locked₃,
      since'.kept.trans kept⟩
  case isFalse equal =>
    have length : data.length = e.data.length := by
      simp only [Entry.dlen] at equal
      omega
    have inChain : x ∈ σ.chain (dbHash nhashDef key) := by simp [split]
    have there : HasAt σ.dat e.doff (e.data ++ [newline]) :=
      inv.stored.there (a := .entry x) (by simp [St.extent, found])
    rw [current.datoff]
    refine .bind (triple_writedatAt (d := data) (o := .at (keyPlace key)) (dbHash_lt key) held
      (cstr_of_nulFree storable.dataClean) length inChain held found there ⟨congrArg _ same,
        fun _ => .inr (.inl ⟨flag, ?_⟩)⟩) ?_
    · rw [locked.status]
      simp [same]
    · rintro - _ σ₂ ⟨rfl, rewrites⟩
      have map : σ₂.map = σ.map := by rw [St.map, rewrites.obj]
      refine .modified ⟨⟨onChain.nhash, onChain.hashoff, onChain.chain⟩,
        ⟨fun l => ?_, ?_, ⟨?_, ?_⟩, ?_⟩, ?_⟩
      · rw [rewrites.locks]
        exact locked.holding l
      · rw [rewrites.obj]
        exact locked.status
      · rw [rewrites.members]
        exact locked.own.1
      · rw [rewrites.fresh]
        exact locked.own.2
      · rw [map, ← same]
        rw [← same] at inChain
        have ok := locked.chain
        rw [← same] at ok
        exact ok.overwrite (dbHash_lt _) inChain found rewrites
      · exact ⟨by rw [rewrites.members], fun k _ => congrFun map k, fun _ => map⟩

theorem triple_storeFound {r : Int} {visited : List Nat}
    (onChain : OnChain (chainOff (dbHash nhashDef key)) db)
    (inv : Coherent room σ) (storable : Storable key data)
    (limit : Limit room env E p key data flag σ₀) (start : Until p σ₀ σ)
    (locked : Locked σ p (.store key data flag) key .write σ.map)
    (located : Located σ key db r visited) :
    Triple (discipline room env) p E σ
      (storeFound key data (cInt key.length) (cInt (data.length + 1 : Nat)) flag.code r) db
      fun rc db' σ' => rc = (mapStore σ.map key data flag).1 ∧
        OnChain (chainOff (dbHash nhashDef key)) db' ∧
        Locked σ' p (.store key data flag) key .write (mapStore σ'.map key data flag).2 ∧
          Kept p key σ σ' := by
  have unchanged : Kept p key σ σ := (Since.refl p key σ).kept
  unfold storeFound
  rcases located with ⟨rfl, before, x, e, after, split, -, found, same, current,
    ptroff⟩ | ⟨rfl, -, absent⟩
  · have bound : σ.map key = some e.data := locked.chain.lookup (by simp [split]) found same
    rw [if_neg (by decide)]
    -- the key is there: an insertion is refused
    by_cases isInsert : flag = .insert
    · subst isInsert
      rw [if_pos (show Flag.insert.code = dbInsert from rfl)]
      refine .modifyThen (.pure ⟨?_, ⟨onChain.nhash, onChain.hashoff, onChain.chain⟩, ?_,
        unchanged⟩)
      · simp [mapStore, bound]
      · simpa [mapStore, bound] using locked
    · rw [if_neg (mt Flag.code_eq_dbInsert.mp isInsert)]
      refine .bind (triple_storeOld onChain inv storable limit start locked split found same
        current ptroff) ?_
      rintro - _ σ' ⟨onChain', locked', kept⟩
      have bound' : σ'.map key = some e.data := (kept.map key rfl).trans bound
      refine .pure ⟨?_, onChain', ?_, kept⟩
      · cases flag <;> simp_all [mapStore]
      · cases flag <;> simp_all [mapStore]
  · have unbound : σ.map key = none := locked.chain.lookup_none absent
    rw [if_pos (by decide)]
    by_cases isReplace : flag = .replace
    · subst isReplace
      rw [if_pos (show Flag.replace.code = dbReplace from rfl)]
      refine .modifyThen (.pure ⟨?_, ⟨onChain.nhash, onChain.hashoff, onChain.chain⟩, ?_,
        unchanged⟩)
      · simp [mapStore, unbound]
      · simpa [mapStore, unbound] using locked
    · rw [if_neg (mt Flag.code_eq_dbReplace.mp isReplace)]
      refine .bind (triple_storeNew onChain storable limit start locked unbound) ?_
      rintro - _ σ' ⟨onChain', locked', kept⟩
      have unbound' : σ'.map key = none := (kept.map key rfl).trans unbound
      refine .pure ⟨?_, onChain', ?_, kept⟩
      · cases flag <;> simp_all [mapStore]
      · cases flag <;> simp_all [mapStore]

end

omit [DecidableEq ι] in
theorem mapStore_local (key data : Bytes) (flag : Flag) :
    Local (dbHash nhashDef key) fun m => (mapStore m key data flag).2 := by
  have changed := update_local key (some data)
  refine ⟨fun m k elsewhere => ?_, fun m m' same k here => ?_⟩
  · have := changed.elsewhere m k elsewhere
    cases flag <;> simp only [mapStore] <;> (try split) <;> simp_all
  · have := changed.here m m' same k here
    have := same k here
    have := same key rfl
    cases flag <;> simp only [mapStore] <;> (try split) <;> simp_all

theorem triple_store {flag : Flag} (storable : Storable key data)
    (limit : Limit room env E p key data flag σ)
    (ready : Ready σ p (.store key data flag)) (nhash : db.nhash = nhashDef)
    (hashoff : db.hashoff = hashOff) :
    Triple (discipline room env) p E σ (dbStore key data flag.code) db fun rc db' σ' =>
      Updated σ p (.store key data flag) (mapStore · key data flag) rc db' σ' := by
  have valid := flag.code_known
  have small := storable.dataMax
  have large := storable.dataMin
  simp only [datlenMax] at small
  have datlen : cInt ((data.length : Int) + 1) = data.length + 1 := by
    have := cInt_of_small (n := data.length + 1) (by omega)
    simpa using this
  unfold dbStore
  rw [if_neg valid, strlen_of_nulFree storable.keyClean, strlen_of_nulFree storable.dataClean]
  dsimp only
  rw [if_neg (by rw [datlen]; simp only [datlenMin, datlenMax]; omega)]
  refine .bind (triple_findAndLock storable.keyClean true ready nhash hashoff) ?_
  rintro r db₁ σ₁ ⟨onChain, locked, visited, located, -, inv₁, lost, alone⟩
  have start : Until p σ σ₁ := ⟨lost.members, fun only => by rw [alone only]; exact ⟨rfl, rfl, rfl⟩⟩
  refine .bind (triple_storeFound onChain inv₁ storable limit start locked located) ?_
  rintro _ db₂ σ₂ ⟨rfl, onChain₂, locked₂, kept⟩
  refine triple_unlockUpdated (c := fun m => (mapStore m key data flag).2) start onChain₂
    locked₂ kept
    (mapStore_local key data flag) fun s agrees => ?_
  have same : (mapStore s.value key data flag).1 = (mapStore σ₁.map key data flag).1 := by
    cases flag <;> simp only [mapStore, agrees]
    all_goals split <;> rfl
  exact ⟨⟨by rw [same], rfl⟩, same.symm, rfl⟩

end Apue.Db
