import Apue.Db.Rules

/-! # Finding records

`_db_readptr`, `_db_readidx` and `_db_readdat` under a lock, and the walk along a hash chain.
-/

namespace Apue.Db

open Apue.Base St

variable {ι : Type} [DecidableEq ι] {room : Nat} {env : ι → FileCall File → St ι → Prop}
    {E : Err → St ι → Prop} {p : ι}
  {σ : St ι} {db : DB}

/-- The record `_db_readidx` has read last is the one at `x`. -/
structure Current (db : DB) (x : Nat) (e : Entry) : Prop where
  idxoff : db.idxoff = x
  idxbuf : ∃ rest, db.idxbuf = e.key ++ 0 :: rest
  datoff : db.datoff = e.doff
  datlen : db.datlen = e.dlen
  ptrval : db.ptrval = e.ptr

/-- What `_db_readidx` leaves in the structure. -/
def DB.load (db : DB) (x : Nat) (e : Entry) (rest : Bytes) : DB :=
  { db with
    idxoff := x
    ptrval := e.ptr
    idxlen := e.text.length
    idxbuf := e.key ++ 0 :: rest
    datoff := e.doff
    datlen := e.dlen }

theorem DB.load_current (db : DB) (x : Nat) (e : Entry) (rest : Bytes) :
    Current (db.load x e rest) x e :=
  ⟨rfl, ⟨rest, rfl⟩, rfl, rfl, rfl⟩

/-! ## Reading under a lock -/

omit [DecidableEq ι] in
theorem St.Same.slot {τ : St ι} {place : Place} (same : σ.Same τ (.at place))
    (listed : place.Listed) :
    τ.img.ptrAt place.slot = σ.img.ptrAt place.slot := by
  cases place with
  | chain h => exact same.2.1 listed
  | free => exact same.2
  | idxEnd => exact listed.elim
  | datEnd => exact listed.elim

theorem triple_readptr {P : Place} (listed : P.Listed) (reads : σ.Reads p (.at P)) {v : Nat}
    (found : σ.img.ptrAt P.slot = some v) :
    Triple (discipline room env) p E σ (dbReadptr P.slot) db fun r db' σ' =>
      r = v ∧ db' = db ∧ σ' = σ.seek p .idx (P.slot + ptrSz) ∧ v ≤ ptrMax := by
  refine .given fun τ relied inv => ?_
  have small : v ≤ ptrMax :=
    inv.img.ptrAt_le (((relied.same (.at P) reads).slot listed).trans found)
  refine .bind (triple_seek .idx P.slot .readptrLseek) ?_
  rintro - _ _ ⟨rfl, rfl, rfl⟩
  refine .bind (triple_read (B := encPtr v) fun τ relied inv => ?_) ?_
  · have there := inv.img.ptrAt_hasAt (((relied.same (.at P) reads).slot listed).trans found)
    rw [St.seek_pos, inv.idx]
    simpa using there.read
  · rintro _ _ _ ⟨rfl, rfl, rfl⟩
    rw [if_neg (by simp [ptrSz])]
    exact .pure ⟨atol_encPtr small, rfl, by simp, small⟩

/-- The text of a record, read after its pointer and its length. -/
theorem triple_readidxRecord {e : Entry} {ptr : Nat} (small : ptr ≤ ptrMax) (ok : e.Ok)
    (known : ∀ τ, Rely p σ τ → Coherent room τ → HasAt (τ.w.bytes .idx) (σ.w.pos p .idx) e.text) :
    Triple (discipline room env) p E σ (dbReadidxRecord (encPtr ptr ++ encLen e.text.length)) db
        fun r db' σ' =>
      r = ptr ∧ (∃ rest, db' = { db.load db.idxoff e rest with ptrval := ptr }) ∧
        σ' = σ.seek p .idx (σ.w.pos p .idx + e.text.length) := by
  obtain ⟨rest, parsed⟩ := ok.parse
  refine .modifyThen ?_
  have valid : ¬(e.text.length < idxlenMin ∨ e.text.length > idxlenMax) := by
    have := ok.textMin
    have := ok.textMax
    omega
  simp only [atol_front small, sizeT_atoi_front _ ok.textMax]
  rw [if_neg valid]
  refine .bind (triple_read (B := e.text) fun τ relied inv => (known τ relied inv).read) ?_
  rintro _ _ _ ⟨rfl, rfl, rfl⟩
  rw [if_neg (by simp), parsed]
  refine .modifyThen (.pure ⟨rfl, ⟨rest, rfl⟩, rfl⟩)

theorem triple_readidx {o : Owner ι} {x : Nat} {e : Entry} (reads : σ.Reads p o)
    (member : x ∈ σ.members o)
    (found : σ.img.entryAt x = some e) :
    Triple (discipline room env) p E σ (dbReadidx x) db fun r db' σ' =>
      r = e.ptr ∧ (∃ rest, db' = db.load x e rest) ∧
        σ' = σ.seek p .idx (x + 11 + e.text.length) := by
  have now {τ : St ι} {n : Nat} (relied : Rely p (σ.seek p .idx n) τ) : τ.img.entryAt x = some e :=
    ((relied.same o reads).list.entries x member).trans found
  refine .given fun τ relied inv => ?_
  have ok : e.Ok := inv.img.entry (((relied.same o reads).list.entries x member).trans found)
  have nonzero : (x : Int) ≠ 0 := by
    have := Image.entryAt_records found
    have : 0 < recordsOff := by decide
    omega
  unfold dbReadidx
  rw [if_neg nonzero]
  refine .bind (triple_seek .idx x .readidxLseek) ?_
  rintro r _ _ ⟨offset, rfl, rfl⟩
  rw [offset]
  refine .modifyThen ?_
  refine .bind (triple_read (B := encPtr e.ptr ++ encLen e.text.length) fun τ relied inv => ?_) ?_
  · obtain ⟨before, after, split, length⟩ := inv.img.entryAt_hasAt (now relied)
    have there : HasAt τ.img.bytes x (encPtr e.ptr ++ encLen e.text.length) :=
      ⟨before, e.text ++ after, by rw [split, Entry.enc]; simp, length⟩
    rw [St.seek_pos, inv.idx]
    simpa [ptrSz, idxlenSz] using there.read
  · rintro _ _ _ ⟨rfl, rfl, rfl⟩
    rw [if_pos (by simp [ptrSz, idxlenSz]), St.seek_seek]
    refine (triple_readidxRecord ok.ptr ok fun τ relied inv => ?_).weaken ?_
    · obtain ⟨before, after, split, length⟩ := inv.img.entryAt_hasAt (now relied)
      refine ⟨before ++ encPtr e.ptr ++ encLen e.text.length, after, ?_, ?_⟩
      · rw [inv.idx, split, Entry.enc]
        simp
      · simp [length]
    · rintro r db' σ' ⟨rfl, ⟨rest, rfl⟩, rfl⟩
      refine ⟨rfl, ⟨rest, rfl⟩, ?_⟩
      simp [Nat.add_assoc]

/-- The data of the current record, which nobody changes while the process reads. -/
theorem triple_readdatKnown {e : Entry} (datoff : db.datoff = e.doff) (datlen : db.datlen = e.dlen)
    (clean : NulFree e.data)
    (known : ∀ τ, Rely p (σ.seek p .dat e.doff) τ → Coherent room τ → HasAt τ.dat e.doff
    (e.data ++ [newline])) :
    Triple (discipline room env) p E σ dbReaddat db fun r db' σ' =>
      r = e.data ∧ db' = { db with datbuf := e.data ++ [0] } ∧
        σ' = σ.seek p .dat (e.doff + e.dlen) := by
  have length : (e.data ++ [newline]).length = e.dlen := by simp [Entry.dlen]
  refine .get ?_
  rw [datoff, datlen]
  refine .bind (triple_seek .dat e.doff .readdatLseek) ?_
  rintro r _ _ ⟨-, rfl, rfl⟩
  refine .bind (triple_read (B := e.data ++ [newline]) fun τ relied inv => ?_) ?_
  · have there := (known τ relied inv).read
    rwa [length, ← St.seek_pos σ p .dat e.doff] at there
  · rintro _ _ _ ⟨rfl, rfl, rfl⟩
    rw [if_neg (by simp [length]), if_neg (by simp)]
    refine .modifyThen (.pure ⟨?_, ?_, ?_⟩)
    · rw [List.dropLast_concat, cstr_append_zero clean []]
    · simp only [List.dropLast_concat, datoff, datlen]
    · rw [St.seek_pos, St.seek_seek, length]

theorem triple_readdat {o : Owner ι} {x : Nat} {e : Entry} (reads : σ.Reads p o)
    (member : x ∈ σ.members o)
    (found : σ.img.entryAt x = some e) (current : Current db x e) :
    Triple (discipline room env) p E σ dbReaddat db fun r db' σ' =>
      r = e.data ∧ db' = { db with datbuf := e.data ++ [0] } ∧
        σ' = σ.seek p .dat (e.doff + e.dlen) := by
  refine .given fun τ relied inv => ?_
  have ok : e.Ok := inv.img.entry (((relied.same o reads).list.entries x member).trans found)
  refine triple_readdatKnown current.datoff current.datlen ok.dataClean fun τ relied inv => ?_
  have now : τ.img.entryAt x = some e := ((relied.same o reads).list.entries x member).trans found
  exact inv.stored.there (a := .entry x) (by simp [St.extent, now])

/-! ## Walking along a chain -/

/-- The end of the record at `x`. -/
def Image.recEnd (img : Image) (x : Nat) : Nat :=
  x + 11 + ((img.entryAt x).map fun e => e.text.length).getD 0

/-- Where the file offset is after a walk that has read the records at `visited`. -/
def walkEnd (img : Image) (h : Nat) (visited : List Nat) : Nat :=
  (visited.getLast?.map img.recEnd).getD (chainOff h + ptrSz)

/-- How the walk for a key ends: at its record, with the cell of the pointer that led there, or at
the end of the chain. -/
def Located (σ : St ι) (key : Bytes) (db : DB) (r : Int) (visited : List Nat) : Prop :=
  (r = 0 ∧ ∃ before x e after, σ.chain (dbHash nhashDef key) = before ++ x :: after ∧
      visited = before ++ [x] ∧
      σ.img.entryAt x = some e ∧ e.key = key ∧ Current db x e ∧
      db.ptroff = (lastCell (chainOff (dbHash nhashDef key)) before : Nat)) ∨
    (r = -1 ∧ visited = σ.chain (dbHash nhashDef key) ∧
      ∀ x ∈ σ.chain (dbHash nhashDef key), ∀ e, σ.img.entryAt x = some e → e.key ≠ key)

theorem walkEnd_snoc (img : Image) (h : Nat) (visited : List Nat) (x : Nat) :
    walkEnd img h (visited ++ [x]) = img.recEnd x := by
  simp [walkEnd]

theorem Image.recEnd_of {img : Image} {x : Nat} {e : Entry} (found : img.entryAt x = some e) :
    img.recEnd x = x + 11 + e.text.length := by
  simp [Image.recEnd, found]

/-- The walk from the middle of the chain, by induction on what is left of it. -/
theorem triple_findLoop {key : Bytes} {m : Map} (clean : NulFree key)
    (reads : σ.Reads p (.at (keyPlace key)))
    (ok : ChainOk σ (dbHash nhashDef key) m) {before after : List Nat} {offset : Nat}
    (split : σ.chain (dbHash nhashDef key) = before ++ after)
    (passed : ∀ x ∈ before, ∀ e, σ.img.entryAt x = some e → e.key ≠ key)
    (offsetIs : offset = after.head?.getD 0) {db : DB} {c : Nat} (onChain : OnChain c db)
    (ptroff : db.ptroff = (lastCell (chainOff (dbHash nhashDef key)) before : Nat)) :
    Triple (discipline room env) p E (σ.seek p .idx (walkEnd σ.img (dbHash nhashDef key) before))
      (Code.loop (findTurn key) (offset : Int)) db fun r db' σ' => OnChain c db' ∧ ∃ visited,
        Located σ key db' (if r = 0 then -1 else 0) visited ∧
        σ' = σ.seek p .idx (walkEnd σ.img (dbHash nhashDef key) visited) := by
  induction after generalizing before offset db with
  | nil =>
    refine .loop ?_
    rw [offsetIs]
    refine .pure ⟨onChain, before, .inr ⟨rfl, by simpa using split.symm, ?_⟩, rfl⟩
    rw [split, List.append_nil]
    exact passed
  | cons x after inductionHypothesis =>
    have member : x ∈ σ.chain (dbHash nhashDef key) := by
      rw [split]
      simp
    obtain ⟨e, found, _⟩ := ok.entries x member
    have nonzero : x ≠ 0 := ok.linked.ne_zero member
    have isX : offset = x := by simpa using offsetIs
    refine .given fun τ relied inv => ?_
    have okE : e.Ok :=
      inv.img.entry (((relied.same (.at (keyPlace key)) reads).list.entries x member).trans found)
    refine .loop ?_
    rw [isX]
    unfold findTurn
    rw [if_neg (by exact_mod_cast nonzero)]
    refine .bind (triple_readidx (o := .at (keyPlace key)) reads member found) ?_
    rintro r _ _ ⟨rfl, ⟨rest, rfl⟩, rfl⟩
    refine .get ?_
    have compare : strEq (db.load x e rest).idxbuf key = decide (e.key = key) := by
      simp [strEq, DB.load, cstr_append_zero okE.keyClean, cstr_of_nulFree clean]
    rw [compare, St.seek_seek]
    have atEnd : x + 11 + e.text.length = walkEnd σ.img (dbHash nhashDef key) (before ++ [x]) := by
      rw [walkEnd_snoc, Image.recEnd_of found]
    by_cases same : e.key = key
    · rw [if_pos (by simpa using same)]
      refine .pure ⟨⟨onChain.nhash, onChain.hashoff, onChain.chain⟩, before ++ [x],
        .inl ⟨?_, ?_⟩, ?_⟩
      · rw [if_neg (by exact_mod_cast nonzero)]
      · exact ⟨before, x, e, after, split, rfl, found, same, DB.load_current .., ptroff⟩
      · rw [atEnd]
    · rw [if_neg (by simpa using same)]
      refine .modifyThen (.pure ?_)
      have next : e.ptr = after.head?.getD 0 := by
        have linked := ok.linked
        rw [split] at linked
        exact Option.some.inj ((Image.ptrAt_record found).symm.trans linked.next)
      rw [atEnd]
      refine inductionHypothesis (split.trans (List.append_cons before x after)) ?_ next ?_ ?_
      · intro y inList d foundY
        rcases List.mem_append.1 inList with old | new
        · exact passed y old d foundY
        · rw [List.mem_singleton.1 new, found] at foundY
          cases foundY
          exact same
      · exact ⟨onChain.nhash, onChain.hashoff, onChain.chain⟩
      · rw [lastCell_append_singleton]

/-! ## Operations on a chain -/

/-- The process is at the start of an operation. -/
structure Ready (σ : St ι) (p : ι) (op : Op) : Prop where
  holding : Holding σ p []
  status : σ.obj.status p = .pending op
  own : σ.members (.priv p) = [] ∧ σ.fresh p = none

/-- The process is inside its operation and has the chain of the key, which stands for the bindings
`map`. -/
structure Locked (σ : St ι) (p : ι) (op : Op) (key : Bytes) (type : LockType)
    (map : Map) : Prop where
  holding : Holding σ p [(keyPlace key).lock type]
  status : σ.obj.status p = .pending op
  own : σ.members (.priv p) = [] ∧ σ.fresh p = none
  chain : ChainOk σ (dbHash nhashDef key) map

/-- The operation has had its effect and the process holds nothing. -/
structure Finished (σ : St ι) (p : ι) (op : Op) (res : Res) : Prop where
  holding : Holding σ p []
  status : σ.obj.status p = .done op res

/-- The files, and who owns what, are as before. -/
structure Untouched (σ σ' : St ι) : Prop where
  bytes : σ'.w.bytes = σ.w.bytes
  img : σ'.img = σ.img
  members : σ'.members = σ.members
  fresh : σ'.fresh = σ.fresh
  map : σ'.map = σ.map

omit [DecidableEq ι] in
theorem Locked.reads {op : Op} {key : Bytes} {type : LockType} {m : Map}
    (locked : Locked σ p op key type m) :
    σ.Reads p (.at (keyPlace key)) := ⟨type, (locked.holding _).2 List.mem_cons_self⟩

theorem Locked.seek {op : Op} {key : Bytes} {type : LockType} {m : Map}
    (locked : Locked σ p op key type m) (file : File)
    (offset : Nat) : Locked (σ.seek p file offset) p op key type m :=
  ⟨locked.holding, locked.status, locked.own, locked.chain.congr ⟨rfl, fun _ _ => rfl⟩ rfl⟩

omit [DecidableEq ι] in
/-- The first pointer of a chain. -/
theorem ChainOk.head {h : Nat} {m : Map} (ok : ChainOk σ h m) :
    σ.img.ptrAt (chainOff h) = some ((σ.chain h).head?.getD 0) := ok.linked.first

theorem triple_findAndLock {op : Op} {key : Bytes} (clean : NulFree key) (writelock : Bool)
    (ready : Ready σ p op)
    (nhash : db.nhash = nhashDef) (hashoff : db.hashoff = hashOff) :
    let type : LockType := if writelock then .write else .read
    Triple (discipline room env) p E σ (dbFindAndLock key writelock) db fun r db' σ' =>
      OnChain (chainOff (dbHash nhashDef key)) db' ∧ Locked σ' p op key type σ'.map ∧ ∃ visited,
        Located σ' key db' r visited ∧
          σ'.w.pos p .idx = walkEnd σ'.img (dbHash nhashDef key) visited ∧ Coherent room σ' ∧
        σ.Same σ' .lost ∧ (Alone p →
          σ' = (σ.acquire p (keyPlace key) type).seek p .idx
          (walkEnd σ.img (dbHash nhashDef key) visited)) := by
  intro type
  refine .modifyThen ?_
  rw [nhash, hashoff]
  have lock (db' : DB) (chainoff : db'.chainoff = chainOff (dbHash nhashDef key)) :
      Triple (discipline room env) p E σ (lockChain writelock) db' fun _ db'' σ' =>
        db'' = db' ∧ Carries p σ σ' ∧ Holding σ' p [(keyPlace key).lock type] ∧
          Order σ' (keyPlace key) ∧ Coherent room σ' ∧
          (Alone p → σ' = σ.acquire p (keyPlace key) type) := by
    refine .get ?_
    rw [chainoff]
    cases writelock <;> exact triple_lock ⟨rfl, rfl⟩ (keyPlace_real key) ready.holding (by simp)
  refine .bind (lock _ rfl) ?_
  rintro - _ σ' ⟨rfl, carries, holding, order, inv, alone⟩
  have locked : Locked σ' p op key type σ'.map := by
    have own := carries.same (.priv p) rfl
    exact ⟨holding, carries.status.trans ready.status,
      ⟨own.1.members.trans ready.own.1, own.2.trans ready.own.2⟩, order⟩
  refine .get (.bind (triple_readptr (P := keyPlace key) (dbHash_lt key) locked.reads
    locked.chain.head) ?_)
  rintro _ _ _ ⟨rfl, rfl, rfl, -⟩
  refine .bind (triple_findLoop clean locked.reads locked.chain (List.nil_append _).symm
    (by simp) rfl
    (c := chainOff (dbHash nhashDef key)) ⟨rfl, rfl, rfl⟩ rfl) ?_
  rintro r db' _ ⟨onChain, visited, located, rfl⟩
  refine .pure ⟨onChain, locked.seek _ _, visited, located, St.seek_pos .., inv.seek p .idx _,
    carries.lost.trans (St.seek_same ..), fun only => ?_⟩
  rw [alone only]
  rfl

/-! ## Fetching -/

/-- The records a search for the key reads. -/
def Visits (σ : St ι) (key : Bytes) (visited : List Nat) : Prop :=
  (∃ before x e after, σ.chain (dbHash nhashDef key) = before ++ x :: after ∧
      visited = before ++ [x] ∧
      σ.img.entryAt x = some e ∧ e.key = key) ∨
    visited = σ.chain (dbHash nhashDef key) ∧ ∀ x ∈ σ.chain (dbHash nhashDef key), ∀ e,
      σ.img.entryAt x = some e → e.key ≠ key

omit [DecidableEq ι] in
theorem Located.visits {key : Bytes} {r : Int} {visited : List Nat}
    (located : Located σ key db r visited) :
    Visits σ key visited := by
  rcases located with ⟨-, before, x, e, after, split, seen, found, same, -⟩ | ⟨-, seen, absent⟩
  · exact .inl ⟨before, x, e, after, split, seen, found, same⟩
  · exact .inr ⟨seen, absent⟩

omit [DecidableEq ι] in
/-- What is found is what the map says. -/
theorem ChainOk.lookup {key : Bytes} {m : Map} (ok : ChainOk σ (dbHash nhashDef key) m) {x : Nat}
    {e : Entry}
    (member : x ∈ σ.chain (dbHash nhashDef key)) (found : σ.img.entryAt x = some e)
    (same : e.key = key) :
    m key = some e.data := (ok.bound rfl e.data).2 ⟨x, member, e, found, same, rfl⟩

omit [DecidableEq ι] in
theorem ChainOk.lookup_none {key : Bytes} {m : Map} (ok : ChainOk σ (dbHash nhashDef key) m)
    (absent : ∀ x ∈ σ.chain (dbHash nhashDef key), ∀ e, σ.img.entryAt x = some e → e.key ≠ key) :
    m key = none := by
  cases bound : m key with
  | none => rfl
  | some data =>
    obtain ⟨x, member, e, found, same, -⟩ := (ok.bound rfl data).1 bound
    exact absurd same (absent x member e found)

theorem triple_fetchFound {key : Bytes} {op : Op} {type : LockType} {r : Int}
    {visited : List Nat} {c : Nat}
    (onChain : OnChain c db) (locked : Locked σ p op key type σ.map)
    (located : Located σ key db r visited) :
    Triple (discipline room env) p E σ (fetchFound r) db fun data db' σ' =>
      OnChain c db' ∧ data = σ.map key ∧ ∃ n, σ' = σ.seek p .dat n := by
  unfold fetchFound
  rcases located with ⟨rfl, before, x, e, after, split, -, found, same, current,
    -⟩ | ⟨rfl, -, absent⟩
  · have member : x ∈ σ.chain (dbHash nhashDef key) := by simp [split]
    rw [if_neg (by decide)]
    refine .bind (triple_readdat locked.reads member found current) ?_
    rintro _ _ _ ⟨rfl, rfl, rfl⟩
    refine .modifyThen (.pure ⟨⟨onChain.nhash, onChain.hashoff, onChain.chain⟩, ?_, _, rfl⟩)
    exact (locked.chain.lookup member found same).symm
  · rw [if_pos (by decide)]
    refine .modifyThen (.pure ⟨⟨onChain.nhash, onChain.hashoff, onChain.chain⟩, ?_,
      σ.w.pos p .dat, ?_⟩)
    · exact (locked.chain.lookup_none absent).symm
    · simp [St.seek, World.setPos]

theorem triple_unlockKey {key : Bytes} {type : LockType} {op : Op} {r : Res} {c : Map → Map}
    {error : Err}
    (onChain : OnChain (chainOff (dbHash nhashDef key)) db)
    (locked : Locked σ p op key type (c σ.map))
    (isLocal : Local (dbHash nhashDef key) c)
    (spec : ∀ s : Atomic ι Map Op Res, s.value key = σ.map key → dbSpec s op r (c s.value))
    (reader : type = .read → ∀ m, c m = m) :
    Triple (discipline room env) p E σ (unlockChain error) db fun _ db' σ' =>
      db' = db ∧ σ'.w.pos p = σ.w.pos p ∧ Finished σ' p op r ∧ Coherent room σ' ∧
        σ'.members .lost = σ.members .lost ∧
        (Alone p → σ' = (σ.release p (keyPlace key)).setObj
          ⟨c σ.map, Function.update σ.obj.status p (.done op r)⟩) := by
  refine .get ?_
  rw [onChain.chain]
  refine (triple_unlockChain (dbHash_lt key) locked.holding locked.status locked.own isLocal
    (fun s agrees => spec s (agrees key rfl)) locked.chain reader).weaken ?_
  rintro - db' σ' ⟨rfl, pos, holding, status, inv, lost, alone⟩
  exact ⟨rfl, pos, ⟨holding, status⟩, inv, lost, alone⟩

theorem triple_fetch {key : Bytes} (clean : NulFree key) (ready : Ready σ p (.fetch key))
    (nhash : db.nhash = nhashDef)
    (hashoff : db.hashoff = hashOff) :
    Triple (discipline room env) p E σ (dbFetch key) db fun data db' σ' =>
      db'.nhash = nhashDef ∧ db'.hashoff = hashOff ∧ Finished σ' p (.fetch key) (.data data) ∧
        σ'.members .lost = σ.members .lost ∧
          (Alone p → Untouched σ σ' ∧ data = σ.map key ∧ ∃ visited, Visits σ key visited ∧
          σ'.w.pos p .idx = walkEnd σ.img (dbHash nhashDef key) visited) := by
  refine .bind (triple_findAndLock clean false ready nhash hashoff) ?_
  rintro r db₁ σ₁ ⟨onChain, locked, visited, located, pos, -, lost, alone⟩
  refine .bind (triple_fetchFound onChain locked located) ?_
  rintro data db₂ _ ⟨onChain₂, rfl, n, rfl⟩
  refine .bind (triple_unlockKey (c := id) (r := .data (σ₁.map key)) onChain₂ (locked.seek _ _)
    ⟨fun _ _ _ => rfl, fun _ _ agrees => agrees⟩ (fun s agrees => ⟨by rw [agrees]; rfl, rfl⟩)
      fun _ _ => rfl) ?_
  rintro - db' σ' ⟨rfl, pos', finished, -, lost', alone'⟩
  refine .pure ⟨onChain₂.nhash, onChain₂.hashoff, finished, lost'.trans lost.members,
    fun only => ?_⟩
  have same := alone only
  refine ⟨?_, ?_, visited, ?_, ?_⟩
  · rw [alone' only, same]
    exact ⟨rfl, rfl, rfl, rfl, rfl⟩
  · rw [same]
    rfl
  · have := located.visits
    rw [same] at this
    exact this
  · rw [pos', St.seek_pos_other _ _ (by decide), pos, same]
    rfl

end Apue.Db
