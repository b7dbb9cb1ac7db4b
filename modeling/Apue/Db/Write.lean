import Apue.Db.Edit

/-! # The writing functions

`_db_writedat` and `_db_writeidx`, in place and at the end of the file.
-/

namespace Apue.Db

open Apue.Base St

variable {ι : Type} [DecidableEq ι] {room : Nat} {env : ι → FileCall File → St ι → Prop}
    {E : Err → St ι → Prop} {p : ι}
  {σ : St ι} {db : DB} {o : Owner ι} {e : Entry} {h : Nat}

/-! ## In place -/

theorem notAppending {α : Type} {post : α → DB → St ι → Prop} {m : DbM Unit} {f : Unit → DbM α}
    (rest : Triple (discipline room env) p E σ (f ()) db post) :
    Triple (discipline room env) p E σ (whenAppending .set m >>= f) db post := rest

theorem Entry.Ok.withData (ok : e.Ok) {data : Bytes} (clean : NulFree data)
    (length : data.length = e.data.length) :
    Entry.Ok { e with data := data } :=
  ⟨ok.ptr, ok.keyClean, ok.keySep, e.text_data length ▸ ok.textMin, e.text_data length ▸ ok.textMax,
    ok.doff, clean,
    length ▸ ok.dataMin, length ▸ ok.dataMax⟩

/-- The data of a record is overwritten. -/
theorem triple_writedatAt {x : Nat} {d buffer : Bytes} (real : h < nhashDef)
    (held : σ.Holds p (.chain h) .write)
    (text : cstr buffer = d) (length : d.length = e.data.length) (member : x ∈ σ.members o)
    (writes : σ.Writes p o)
    (found : σ.img.entryAt x = some e) (there : HasAt σ.dat e.doff (e.data ++ [newline]))
    (fine : Fine σ p { e with data := d } o) :
    Triple (discipline room env) p E σ (dbWritedat buffer e.doff .set) db fun _ db' σ' =>
      db' = { db with datoff := e.doff, datlen := e.dlen } ∧
        Rewrites x { e with data := d } σ σ' := by
  refine .given fun τ relied inv => ?_
  have ok := relied.okay inv writes.reads member found
  have clean : NulFree d := text ▸ nulFree_cstr buffer
  have tidy : Tidy (σ.setData x e d) p := by
    intro k writesK y inList e' here
    rw [(St.setData_rewrites found there length).entry] at here
    split at here
    case isTrue same =>
      cases here
      have sole : k = o := inv.sorted.one ((relied.same k writesK.reads).list.mem.2 inList)
        ((relied.same o writes.reads).list.mem.2 (same ▸ member))
      rw [sole]
      exact fine.congr rfl rfl rfl rfl
    case isFalse =>
      exact ((Tidy.iff relied).1 (inv.tidy p) k writesK y inList e' here).congr rfl rfl rfl rfl
  refine notAppending (.bind (triple_seek .dat e.doff .writedatLseek) ?_)
  rintro _ _ _ ⟨rfl, rfl, rfl⟩
  refine .modifyThen
    (.bind (triple_write (Q := fun σ' => Rewrites x { e with data := d } σ σ') ?_ ?_) ?_)
  · rw [text, List.length_append, length]
    have := ok.dataMax
    simp only [writeMax, datlenMax, List.length_singleton] at *
    omega
  · intro τ relied inv _
    have now : τ.img.entryAt x = some e :=
      ((relied.same o writes.reads).list.entries x member).trans found
    have thereT : HasAt τ.dat e.doff (e.data ++ [newline]) :=
      inv.stored.there (a := .entry x) (by simp [St.extent, now])
    have rewrites := St.setData_rewrites found there length
    have rewritesT := St.setData_rewrites now thereT length
    have writesT : τ.Writes p o := relied.writes.2 writes
    have memberT : x ∈ τ.members o := (relied.same o writes.reads).list.mem.2 member
    have relied' := St.seek_rely (Rewrites.rely relied
      (show Rewrites x _ (σ.seek p .dat e.doff) ((σ.setData x e d).seek p .dat e.doff) from
        ⟨rewrites.entry, rewrites.slot, rewrites.size, rewrites.dat, rfl, rfl, rfl, rfl⟩)
      rewritesT (by rintro rfl; rfl) relied.pos) .dat (e.doff + (cstr buffer ++ [newline]).length)
    have frame := (rewritesT.frame inv.sorted memberT writesT now (by rw [e.text_data length])
      (fun _ _ => ⟨rfl, rfl, length⟩) fun _ _ => rfl).trans
        (St.seek_frame (τ.setData x e d) p .dat (e.doff + (cstr buffer ++ [newline]).length))
    have stored := St.setData_stored inv.stored now length
    have sorted := rewritesT.sorted inv.sorted now
    refine ⟨_, _, ?_, frame, ?_, relied', ?_⟩
    · rw [St.seek_pos, text]
      rfl
    · refine inv.edited frame (inv.img.setEntry now (ok.withData clean length)) ?_ ?_ ⟨stored.there,
        stored.apart⟩
        ⟨sorted.owned, sorted.one, sorted.nodup, sorted.listed⟩ relied' tidy real
          ((relied.locks _).2 held)
      · refine Eq.trans ?_
          (inv.idx.trans (inv.img.setEntry_bytes now (by rw [e.text_data length]) ?_).symm)
        · simp [St.seek, World.setPos, St.setData, World.setBytes_bytes]
        · simp only [Entry.enc, e.text_data length]
      · exact Nat.le_trans (Nat.le_of_eq rewritesT.size) inv.room
    · exact ⟨rewrites.entry, rewrites.slot, rewrites.size, rewrites.dat, rfl, rfl, rfl, rfl⟩
  · rintro - _ σ' ⟨rfl, rewrites⟩
    refine .pure ⟨?_, rewrites⟩
    rw [strlen, text, length]
    rfl

/-- A record that changes hands along with its rewriting, if `heir` says so. -/
def handing (x : Nat) (o : Owner ι) (heir : Option (Owner ι)) : Handing ι :=
  heir.map fun o' => (x, o, o')

/-- What `_db_writeidx` does to the structure. -/
def DB.wrote (db : DB) (x : Nat) (e : Entry) : DB :=
  { db with ptrval := e.ptr, idxbuf := e.text ++ [0], idxoff := x }

/-- The checks of `_db_writeidx` pass. -/
theorem triple_writeidxChecked {e : Entry} {buffer : Bytes} {offset : Int} {whence : Whence}
    {post : Unit → DB → St ι → Prop} (ptr : e.ptr ≤ ptrMax) (text : cstr buffer = e.key)
    (datoff : db.datoff = e.doff)
    (datlen : db.datlen = e.dlen) (textMin : idxlenMin ≤ e.text.length)
    (textMax : e.text.length ≤ idxlenMax)
    (rest : Triple (discipline room env) p E σ (dbWriteidxRecord e.text offset whence e.ptr)
      { db with ptrval := e.ptr, idxbuf := e.text ++ [0] } post) :
    Triple (discipline room env) p E σ (dbWriteidx buffer offset whence e.ptr) db post := by
  refine .modifyThen ?_
  rw [if_neg (by omega)]
  refine .get ?_
  have same : idxText (cstr buffer) db.datoff db.datlen = e.text := by
    rw [text, datoff, datlen, Entry.text]
  simp only [same]
  rw [if_neg (by omega)]
  refine .modifyThen ?_
  rw [if_neg (by omega)]
  exact rest

/-- A record is rewritten in place. -/
theorem triple_writeidxAt {x : Nat} {e' : Entry} {buffer : Bytes} {k : Option (Owner ι)}
    (real : h < nhashDef)
    (held : σ.Holds p (.chain h) .write) (member : x ∈ σ.members o) (writes : σ.Writes p o)
    (found : σ.img.entryAt x = some e) (ok : e'.Ok) (text : cstr buffer = e'.key)
    (datoff : db.datoff = e'.doff)
    (datlen : db.datlen = e'.dlen) (length : e'.text.length = e.text.length)
    (doff : e'.doff = e.doff)
    (data : e'.data = e.data)
    (lasting : ¬σ.Holds p .free .write → isBlank e.key = false → e'.key = e.key)
    (hands : (handing x o k).May σ p) (fine : Fine σ p e' (k.getD o)) :
    Triple (discipline room env) p E σ (dbWriteidx buffer x .set e'.ptr) db fun _ db' σ' =>
      db' = db.wrote x e' ∧ ∃ σ₁, Rewrites x e' σ σ₁ ∧ σ' = σ₁.handOver (handing x o k) := by
  refine triple_writeidxChecked ok.ptr text datoff datlen ok.textMin ok.textMax
    (.get (notAppending ?_))
  refine .bind (triple_seek .idx x .writeidxLseek) ?_
  rintro r _ _ ⟨offset, rfl, rfl⟩
  rw [offset]
  refine .modifyThen ?_
  rw [writeidx_buffer ok.ptr ok.textMax]
  have whole : encPtr e'.ptr ++ encLen e'.text.length ++ e'.text = e'.enc := rfl
  rw [whole]
  have rewrites : Rewrites x e' (σ.seek p .idx x) ((σ.seek p .idx x).edit (.entry x e')) :=
    St.setEntry_rewrites found length
  have may : (Edit.entry x e').May (σ.seek p .idx x) p :=
    ⟨o, e, member, writes, found, ok, length, doff, data, lasting⟩
  have hands' : (handing x o k).May (σ.seek p .idx x) p := hands.congr rfl rfl
  have held' : (σ.seek p .idx x).Holds p (.chain h) .write := held
  refine .given fun τ relied inv => ?_
  have tidy : Tidy (((σ.seek p .idx x).edit (.entry x e')).handOver (handing x o k)) p := by
    refine Tidy.handOver relied inv hands' rfl rfl rfl (fun o₁ y d writes₁ inList stays here =>
      ?_) fun y o₁ o₂ d isHand here => ?_
    · rw [rewrites.entry] at here
      split at here
      case isTrue same =>
        cases here
        have sole : o₁ = o := inv.sorted.one ((relied.same o₁ writes₁.reads).list.mem.2 inList)
          ((relied.same o writes.reads).list.mem.2 (same ▸ member))
        rw [sole]
        cases k with
        | none => exact fine.congr rfl rfl rfl rfl
        | some o' => exact absurd (by rw [same]; rfl) (stays o o')
      case isFalse => exact (Tidy.iff relied).1 (inv.tidy p) o₁ writes₁ y inList d here
    · cases k with
      | none => cases isHand
      | some o' =>
        cases isHand
        rw [rewrites.entry, if_pos rfl] at here
        cases here
        exact fine.congr rfl rfl rfl rfl
  refine .bind (triple_edit (B := e'.enc) real held' may hands' ?_ (fun τ relied inv => ?_) tidy) ?_
  · rw [e'.enc_length]
    have := ok.textMax
    simp only [writeMax, idxlenMax] at *
    omega
  · rw [St.seek_pos]
    exact inv.img.write_entry (((relied.same o writes.reads).list.entries x member).trans
      found) length
  · rintro - _ _ ⟨rfl, rfl⟩
    refine .pure ⟨rfl, _, ?_, St.handOver_seek ..⟩
    exact ⟨rewrites.entry, rewrites.slot, rewrites.size, rfl, rfl, rfl, rfl, rfl⟩

/-! ## Pointers of a list -/

/-- The pointer in one cell of a list is now `v`; everything else is as before. -/
structure Relinks (P : Place) (cell v : Nat) (σ σ' : St ι) : Prop where
  ptr : ∀ z, z = P.slot ∨ z ∈ σ.members (.at P) →
    σ'.img.ptrAt z = if z = cell then some v else σ.img.ptrAt z
  entry : ∀ z, (σ'.img.entryAt z).map (Entry.withPtr · 0) = (σ.img.entryAt z).map
    (Entry.withPtr · 0)
  other : ∀ z, z ∉ σ.members (.at P) → σ'.img.entryAt z = σ.img.entryAt z
  slot : ∀ off < recordsOff, off ≠ P.slot → σ'.img.ptrAt off = σ.img.ptrAt off
  size : σ'.img.size = σ.img.size
  dat : σ'.dat.length = σ.dat.length
  members : σ'.members = σ.members
  fresh : σ'.fresh = σ.fresh
  locks : σ'.w.locks = σ.w.locks
  obj : σ'.obj = σ.obj

section

omit [DecidableEq ι]

variable {σ' : St ι} {P : Place} {cell v : Nat}

theorem Repoints.relinks (repoints : Repoints P v σ σ') (listed : P.Listed) (cellIs : cell = P.slot)
    (records : ∀ z ∈ σ.members (.at P), ∃ e, σ.img.entryAt z = some e) : Relinks P cell v σ σ' where
  ptr z inList := by
    rw [cellIs]
    rcases inList with rfl | member
    · exact repoints.slot _ (Place.slot_lt listed)
    · obtain ⟨e, found⟩ := records z member
      have high := Image.entryAt_records found
      have low := Place.slot_lt listed
      rw [if_neg (by omega), Image.ptrAt_record found,
        Image.ptrAt_record ((repoints.entry z).trans found)]
  entry z := by rw [repoints.entry]
  other z _ := repoints.entry z
  slot off low different := by rw [repoints.slot off low, if_neg different]
  size := repoints.size
  dat := by rw [repoints.dat]
  members := repoints.members
  fresh := repoints.fresh
  locks := repoints.locks
  obj := repoints.obj

theorem Rewrites.relinks (rewrites : Rewrites cell (e.withPtr v) σ σ') (listed : P.Listed)
    (member : cell ∈ σ.members (.at P)) (found : σ.img.entryAt cell = some e)
    (records : ∀ z ∈ σ.members (.at P), ∃ e, σ.img.entryAt z = some e) : Relinks P cell v σ σ' where
  ptr z inList := by
    have high := Image.entryAt_records found
    rcases inList with rfl | memberZ
    · have low := Place.slot_lt listed
      rw [if_neg (by omega), rewrites.slot _ low]
    · obtain ⟨d, foundZ⟩ := records z memberZ
      have now := rewrites.entry z
      split at now
      case isTrue same => rw [if_pos same, Image.ptrAt_record now, Entry.withPtr_ptr]
      case isFalse different =>
        rw [if_neg different, Image.ptrAt_record foundZ, Image.ptrAt_record (now.trans foundZ)]
  entry z := by
    rw [rewrites.entry]
    split
    case isTrue same => simp [same, found, Entry.withPtr]
    case isFalse => rfl
  other z absent := by
    rw [rewrites.entry, if_neg]
    rintro rfl
    exact absent member
  slot off low _ := rewrites.slot off low
  size := rewrites.size
  dat := rewrites.dat
  members := rewrites.members
  fresh := rewrites.fresh
  locks := rewrites.locks
  obj := rewrites.obj

/-- The record is the same but for its pointer. -/
theorem Relinks.found (relinks : Relinks P cell v σ σ') {z : Nat}
    (found : σ.img.entryAt z = some e) :
    ∃ u, σ'.img.entryAt z = some (e.withPtr u) := by
  have same := relinks.entry z
  rw [found] at same
  obtain ⟨d, now, eq⟩ := Option.map_eq_some_iff.1 same
  refine ⟨d.ptr, ?_⟩
  rw [now]
  simp only [Entry.withPtr, Entry.mk.injEq, true_and] at eq ⊢
  obtain ⟨key, doff, data⟩ := eq
  rw [← key, ← doff, ← data]

end

/-- A cell of a list the process may write is rewritten, and a record may change hands. -/
theorem triple_relink {P : Place} {u v : Nat} {before after : List Nat} {hand : Handing ι}
    (real : h < nhashDef)
    (held : σ.Holds p (.chain h) .write) (listed : P.Listed) (heldPlace : σ.Holds p P .write)
    (slot : σ.img.ptrAt P.slot = some u)
    (records : ∀ z ∈ σ.members (.at P), ∃ e, σ.img.entryAt z = some e)
    (split : σ.members (.at P) = before ++ after) (small : v ≤ ptrMax) (hands : hand.May σ p)
    (fine : ∀ x o o' e, hand = some (x, o, o') → σ.img.entryAt x = some e → Fine σ p e o') :
    Triple (discipline room env) p E σ (dbWriteptr (lastCell P.slot before : Nat) v) db
        fun _ db' σ' =>
      db' = db ∧ ∃ σ₁, Relinks P (lastCell P.slot before) v σ σ₁ ∧ σ' = σ₁.handOver hand := by
  rcases List.eq_nil_or_concat before with rfl | ⟨front, y, rfl⟩
  · refine (triple_writeptrSlot real held listed heldPlace slot small hands fine).weaken ?_
    rintro - _ _ ⟨rfl, σ₁, repoints, rfl⟩
    exact ⟨rfl, σ₁, repoints.relinks listed rfl records, rfl⟩
  · rw [List.concat_eq_append] at split ⊢
    rw [lastCell_append_singleton]
    have member : y ∈ σ.members (.at P) := by simp [split]
    obtain ⟨e, found⟩ := records y member
    refine (triple_writeptrEntry real held member heldPlace found small hands fine).weaken ?_
    rintro - _ _ ⟨rfl, σ₁, rewrites, rfl⟩
    exact ⟨rfl, σ₁, rewrites.relinks listed member found records, rfl⟩

/-! ## At the end of the file -/

/-- A later state in which the process finds its lists as they were. -/
structure Onward (p : ι) (σ σ' : St ι) : Prop where
  status : σ'.obj.status p = σ.obj.status p
  same : ∀ place : Place, place.Listed → σ.Reads p (.at place) → σ.Same σ' (.at place)
  lost : σ.Same σ' .lost
  alone : Alone p → σ'.map = σ.map

omit [DecidableEq ι] in
theorem Onward.trans {σ' σ'' : St ι} (first : Onward p σ σ') (second : Onward p σ' σ'')
    (reads : ∀ place : Place, place.Listed → σ.Reads p (.at place) → σ'.Reads p (.at place)) :
    Onward p σ σ'' :=
  ⟨second.status.trans first.status,
    fun place listed readsP => (first.same place listed readsP).trans
      (second.same place listed (reads place listed readsP)),
    first.lost.trans second.lost, fun only => (second.alone only).trans (first.alone only)⟩

omit [DecidableEq ι] in
theorem Holding.reads {held : List (Lock File)} {σ' : St ι} (holding : Holding σ p held) {P : Place}
    (reads : σ.Reads p (.at P))
    {more : List (Lock File)} (holding' : Holding σ' p more) (sub : held ⊆ more) :
    σ'.Reads p (.at P) := by
  obtain ⟨type, heldP⟩ := reads
  exact ⟨type, (holding' _).2 (sub ((holding _).1 heldP))⟩

omit [DecidableEq ι] in
theorem Carries.onward {σ' : St ι} (carries : Carries p σ σ') (alone : Alone p → σ'.map = σ.map) :
    Onward p σ σ' :=
  ⟨carries.status, fun _ _ reads => carries.same _ reads, carries.lost, alone⟩

theorem St.seek_onward (σ : St ι) (p : ι) (file : File) (offset : Nat) :
    Onward p σ (σ.seek p file offset) :=
  ⟨rfl, fun _ _ _ => St.seek_same .., St.seek_same .., fun _ => rfl⟩

theorem St.appendData_onward (σ : St ι) (p : ι) (data : Bytes) :
    Onward p σ (σ.appendData p data) where
  status := rfl
  same place listed _ := by
    cases place with
    | chain h => exact ⟨⟨rfl, fun _ _ => rfl⟩, fun _ => rfl, fun _ _ => rfl⟩
    | free => exact ⟨⟨rfl, fun _ _ => rfl⟩, rfl⟩
    | idxEnd => exact listed.elim
    | datEnd => exact listed.elim
  lost := ⟨rfl, fun _ _ => rfl⟩
  alone _ := rfl

/-- Data is appended: it is the process's until it has a record. -/
theorem triple_appendData {held : List (Lock File)} {data : Bytes} (holding : Holding σ p held)
    (new : ∀ type, Place.datEnd.lock type ∉ held) (real : h < nhashDef)
    (heldChain : σ.Holds p (.chain h) .write)
    (clean : NulFree data) (short : data.length < writeMax) :
    Triple (discipline room env) p E σ (dbWritedat data 0 .fromEnd) db fun _ db' σ' => ∃ τ : St ι,
      db' = { db with datoff := τ.dat.length, datlen := data.length + 1 } ∧ Holding σ' p held ∧
        Onward p σ σ' ∧
      SameList σ σ' (.priv p) ∧ σ'.fresh p = some (τ.dat.length, data) ∧ Coherent room σ' ∧
      env p (.write .dat (data ++ [newline])) τ ∧ τ.obj.status p = σ.obj.status p ∧
        τ.w.pos p .dat = τ.dat.length ∧
      (Alone p → τ.dat = σ.dat ∧ σ'.img = σ.img) := by
  refine .bind (show Triple (discipline room env) p E σ
    (writewLock .dat 0 0 .writedatLock) db _ from
    triple_lock (show File.dat = Place.datEnd.file ∧
      Range.ofLen 0 0 = Place.datEnd.range from ⟨rfl, rfl⟩) trivial holding
      new) ?_
  rintro - _ σ₁ ⟨rfl, carries, holding₁, -, inv₁, alone₁⟩
  have heldEnd : σ₁.Holds p .datEnd .write := (holding₁ _).2 List.mem_cons_self
  refine .bind (triple_seekDatEnd heldEnd .writedatLseek) ?_
  rintro r _ _ ⟨offset, rfl, rfl⟩
  rw [offset]
  refine .modifyThen ?_
  rw [strlen_of_nulFree clean, cstr_of_nulFree clean]
  let σ₂ := ((σ₁.seek p .dat σ₁.dat.length).appendData p data).seek p .dat
    (σ₁.dat.length + (data ++ [newline]).length)
  refine .bind (triple_write (Q := fun σ' => σ' = σ₂ ∧ ∃ τ : St ι, τ.dat.length = σ₁.dat.length ∧
      env p (.write .dat (data ++ [newline])) τ ∧ τ.obj.status p = σ₁.obj.status p ∧
        τ.w.pos p .dat = τ.dat.length ∧
      (Alone p → τ.dat = σ₁.dat)) (by simpa [Nat.succ_le_iff] using short) ?_) ?_
  · intro τ relied inv given
    have length : τ.dat.length = σ₁.dat.length := (relied.same (.at .datEnd) ⟨.write, heldEnd⟩).2
    have pos : τ.w.pos p .dat = τ.dat.length := by rw [relied.pos, length, St.seek_pos]
    have heldT : τ.Holds p .datEnd .write := (relied.locks _).2 heldEnd
    let τ₂ := (τ.appendData p data).seek p .dat (σ₁.dat.length + (data ++ [newline]).length)
    have relied' : Rely p σ₂ τ₂ := St.seek_rely (St.appendData_rely relied heldEnd) .dat _
    have frame : Frame p τ τ₂ := (St.appendData_frame heldT).trans (St.seek_frame _ p .dat _)
    have stored : Stored (τ.appendData p data) := St.appendData_stored inv.stored
    have heldC : τ.Holds p (.chain h) .write :=
      (relied.locks _).2 ((holding₁ _).2 (List.mem_cons_of_mem _ ((holding _).1 heldChain)))
    refine ⟨τ₂, σ₂, ?_, frame, ?_, relied', rfl, τ, length, given, relied.status, pos, ?_⟩
    · have written : writeAt (τ.w.bytes .dat) σ₁.dat.length (data ++ [newline]) = τ.dat ++
          (data ++ [newline]) := by
        rw [← length, writeAt_end]
      rw [St.seek_pos, written]
      rfl
    · refine inv.edited frame inv.img ?_ inv.room ⟨stored.there, stored.apart⟩
        ⟨inv.sorted.owned, inv.sorted.one, inv.sorted.nodup, inv.sorted.listed⟩ relied'
          ?_ real heldC
      · refine Eq.trans ?_ inv.idx
        simp [τ₂, St.seek, World.setPos, St.appendData, World.setBytes_bytes]
      · exact inv₁.tidy p
    · intro only
      rw [relied.alone only]
      rfl
  · rintro - _ _ ⟨rfl, rfl, τ, length, given, status, pos, aloneT⟩
    have holding₂ : Holding σ₂ p (Place.datEnd.lock .write :: held) := holding₁
    refine (triple_unlock (show File.dat = Place.datEnd.file ∧
      Range.ofLen 0 0 = Place.datEnd.range from ⟨rfl, rfl⟩) trivial
      (by simp) holding₂ new (fun _ => trivial) (fun isFree => by cases isFree)).weaken ?_
    rintro - _ σ₃ ⟨rfl, carries₃, holding₃, inv₃, alone₃⟩
    have map₁ (only : Alone p) : σ₁.map = σ.map := by rw [alone₁ only]; rfl
    have map₃ (only : Alone p) : σ₃.map = σ₂.map := by rw [alone₃ only]; rfl
    have reads (place : Place) (_ : place.Listed) (readsP : σ.Reads p (.at place)) :
        σ₁.Reads p (.at place) :=
      holding.reads readsP holding₁ (List.subset_cons_self _ _)
    have onward : Onward p σ σ₂ := (((carries.onward map₁).trans (St.seek_onward ..) reads).trans
      (St.appendData_onward _ p data) reads).trans (St.seek_onward ..) reads
    have own₂ : SameList σ σ₂ (.priv p) :=
      (carries.same (.priv p) rfl).1.trans ⟨rfl, fun _ _ => rfl⟩
    obtain ⟨own₃, fresh₃⟩ := carries₃.same (.priv p) rfl
    refine ⟨τ, by rw [length], holding₃, onward.trans (carries₃.onward map₃) reads, own₂.trans own₃, ?_, inv₃, given,
      status.trans carries.status, pos, fun only => ?_⟩
    · rw [fresh₃, length]
      exact Function.update_self ..
    · rw [aloneT only, alone₃ only, alone₁ only]
      exact ⟨rfl, by simp only [σ₂, alone₁ only]; rfl⟩

theorem St.appendEntry_onward (sorted : Sorted σ) (p : ι) (e : Entry) :
    Onward p σ (σ.appendEntry p e) := by
  have list (o : Owner ι) (notOwn : o ≠ .priv p) : SameList σ (σ.appendEntry p e) o := by
    refine ⟨by simp [St.appendEntry, notOwn], fun y member => ?_⟩
    have found := (sorted.owned y).2 ⟨o, member⟩
    rw [St.appendEntry_entryAt, if_neg]
    rintro rfl
    simp [Image.entryAt_size] at found
  refine ⟨rfl, fun place listed _ => ?_, list .lost (by simp), fun _ => rfl⟩
  cases place with
  | chain h =>
    exact ⟨list _ (by simp), fun real => σ.img.ptrAt_append (chainOff_lt real) e, fun _ _ => rfl⟩
  | free => exact ⟨list _ (by simp), σ.img.ptrAt_append (by decide) e⟩
  | idxEnd => exact listed.elim
  | datEnd => exact listed.elim

/-- A record that is no list's yet leaves the lists in order. -/
theorem St.appendEntry_tidy (inv : Coherent room σ) (nothing : σ.members (.priv p) = [])
    (storing : isBlank e.key = false → Storing σ p e) : Tidy (σ.appendEntry p e) p := by
  intro o writes y member d here
  rw [St.appendEntry_entryAt] at here
  by_cases own : o = .priv p
  · subst own
    have new : y = σ.img.size := by simpa [St.appendEntry, nothing] using member
    rw [if_pos new] at here
    cases here
    exact storing
  · have old : y ∈ σ.members o := by simpa [St.appendEntry, own] using member
    have notNew : y ≠ σ.img.size := by
      rintro rfl
      have found := (inv.sorted.owned _).2 ⟨o, old⟩
      simp [Image.entryAt_size] at found
    rw [if_neg notNew] at here
    exact (inv.tidy p o writes y old d here).congr rfl rfl rfl rfl

/-- A record is appended for the data the process has appended: it is the process's, and on no list
yet. -/
theorem triple_appendEntry {held : List (Lock File)} {buffer : Bytes} (holding : Holding σ p held)
    (new : ∀ type, Place.idxEnd.lock type ∉ held) (real : h < nhashDef)
    (heldChain : σ.Holds p (.chain h) .write)
    (ok : e.Ok) (text : cstr buffer = e.key) (datoff : db.datoff = e.doff)
    (datlen : db.datlen = e.dlen)
    (nhash : db.nhash = nhashDef) (nothing : σ.members (.priv p) = [])
    (fresh : σ.fresh p = some (e.doff, e.data))
    (storing : isBlank e.key = false → Storing σ p e)
    (roomy : ∀ τ, env p (.write .idx e.enc) τ → τ.obj.status p = σ.obj.status p →
    τ.w.pos p .idx = τ.img.size →
      (Alone p → τ.img = σ.img) → τ.img.size + 11 + e.text.length ≤ room) :
    Triple (discipline room env) p E σ (dbWriteidx buffer 0 .fromEnd e.ptr) db fun _ db' σ' =>
      ∃ τ : St ι,
      db' = db.wrote τ.img.size e ∧ Holding σ' p held ∧ Onward p σ σ' ∧
        σ'.members (.priv p) = [τ.img.size] ∧
      σ'.img.entryAt τ.img.size = some e ∧ σ'.fresh p = none ∧ Coherent room σ' ∧
      env p (.write .idx e.enc) τ ∧ τ.obj.status p = σ.obj.status p ∧ τ.w.pos p .idx = τ.img.size ∧
      (Alone p → τ.img = σ.img ∧ σ'.img = σ.img.append e ∧ σ'.dat = σ.dat) := by
  refine triple_writeidxChecked ok.ptr text datoff datlen ok.textMin ok.textMax (.get ?_)
  simp only [nhash]
  refine .bind (show Triple (discipline room env) p E σ
    (writewLock .idx recordsOff 0 .writeidxLock) _ _ from
    triple_lock (show File.idx = Place.idxEnd.file ∧
      Range.ofLen recordsOff 0 = Place.idxEnd.range from ⟨rfl, rfl⟩) trivial
      holding new) ?_
  rintro - _ σ₁ ⟨rfl, carries, holding₁, -, inv₁, alone₁⟩
  have heldEnd : σ₁.Holds p .idxEnd .write := (holding₁ _).2 List.mem_cons_self
  refine .bind (triple_seekIdxEnd heldEnd .writeidxLseek) ?_
  rintro r _ _ ⟨offset, rfl, rfl⟩
  rw [offset]
  refine .modifyThen ?_
  rw [writeidx_buffer ok.ptr ok.textMax]
  have whole : encPtr e.ptr ++ encLen e.text.length ++ e.text = e.enc := rfl
  rw [whole]
  have own₁ := carries.same (.priv p) rfl
  have nothing₁ : σ₁.members (.priv p) = [] := own₁.1.members.trans nothing
  have fresh₁ : σ₁.fresh p = some (e.doff, e.data) := own₁.2.trans fresh
  have storing₁ (visible : isBlank e.key = false) : Storing σ₁ p e := by
    rw [Storing, carries.status]
    exact storing visible
  let σ₂ := ((σ₁.seek p .idx σ₁.img.size).appendEntry p e).seek p .idx (σ₁.img.size + e.enc.length)
  refine .bind (triple_write (Q := fun σ' => σ' = σ₂ ∧ ∃ τ : St ι, τ.img.size = σ₁.img.size ∧
      env p (.write .idx e.enc) τ ∧
      τ.obj.status p = σ₁.obj.status p ∧ τ.w.pos p .idx = τ.img.size ∧
        (Alone p → τ.img = σ₁.img)) ?_ ?_) ?_
  · rw [e.enc_length]
    have := ok.textMax
    simp only [writeMax, idxlenMax] at *
    omega
  · intro τ relied inv given
    have size : τ.img.size = σ₁.img.size := (relied.same (.at .idxEnd) ⟨.write, heldEnd⟩).2
    have pos : τ.w.pos p .idx = τ.img.size := by rw [relied.pos, size, St.seek_pos]
    have heldT : τ.Holds p .idxEnd .write := (relied.locks _).2 heldEnd
    have aloneT (only : Alone p) : τ.img = σ₁.img := by rw [relied.alone only]; rfl
    let τ₂ := (τ.appendEntry p e).seek p .idx (σ₁.img.size + e.enc.length)
    have relied' : Rely p σ₂ τ₂ := St.seek_rely (St.appendEntry_rely relied heldEnd) .idx _
    have frame : Frame p τ τ₂ :=
      (St.appendEntry_frame inv.sorted heldT).trans (St.seek_frame _ p .idx _)
    have freshT : τ.fresh p = some (e.doff, e.data) := (relied.same (.priv p) rfl).2.trans fresh₁
    have stored : Stored (τ.appendEntry p e) := St.appendEntry_stored inv.stored freshT
    have sorted : Sorted (τ.appendEntry p e) := St.appendEntry_sorted inv.sorted
    have heldC : τ.Holds p (.chain h) .write :=
      (relied.locks _).2 ((holding₁ _).2 (List.mem_cons_of_mem _ ((holding _).1 heldChain)))
    have tidy : Tidy σ₂ p := St.appendEntry_tidy inv₁ nothing₁ storing₁
    have grown : writeAt (τ.w.bytes .idx) σ₁.img.size e.enc = (τ.img.append e).bytes := by
      rw [inv.idx, ← size, ← inv.img.bytes_length, writeAt_end, Image.append_bytes]
    refine ⟨τ₂, σ₂, ?_, frame, ?_, relied', rfl, τ, size, given, relied.status, pos, aloneT⟩
    · rw [St.seek_pos, grown]
      rfl
    · refine inv.edited frame (inv.img.append ok) ?_ ?_ ⟨stored.there, stored.apart⟩
        ⟨sorted.owned, sorted.one, sorted.nodup, sorted.listed⟩ relied' tidy real heldC
      · simp [τ₂, St.seek, World.setPos, St.appendEntry, World.setBytes_bytes]
      · change (τ.img.append e).size ≤ room
        rw [Image.append_size]
        refine roomy τ given (relied.status.trans carries.status) pos fun only => ?_
        rw [aloneT only, alone₁ only]
        rfl
  · rintro - _ _ ⟨rfl, rfl, τ, size, given, status, pos, aloneT⟩
    have holding₂ : Holding σ₂ p (Place.idxEnd.lock .write :: held) := holding₁
    refine (triple_unlock (show File.idx = Place.idxEnd.file ∧
      Range.ofLen recordsOff 0 = Place.idxEnd.range from ⟨rfl, rfl⟩)
      trivial (by simp) holding₂ new (fun _ => trivial) (fun isFree => by cases isFree)).weaken ?_
    rintro - _ σ₃ ⟨rfl, carries₃, holding₃, inv₃, alone₃⟩
    have map₁ (only : Alone p) : σ₁.map = σ.map := by rw [alone₁ only]; rfl
    have map₃ (only : Alone p) : σ₃.map = σ₂.map := by rw [alone₃ only]; rfl
    have reads (place : Place) (_ : place.Listed) (readsP : σ.Reads p (.at place)) :
        σ₁.Reads p (.at place) :=
      holding.reads readsP holding₁ (List.subset_cons_self _ _)
    have sorted₁ : Sorted (σ₁.seek p .idx σ₁.img.size) :=
      ⟨inv₁.sorted.owned, inv₁.sorted.one, inv₁.sorted.nodup, inv₁.sorted.listed⟩
    have onward : Onward p σ σ₂ := (((carries.onward map₁).trans (St.seek_onward ..) reads).trans
      (St.appendEntry_onward sorted₁ p e) reads).trans (St.seek_onward ..) reads
    obtain ⟨own₃, fresh₃⟩ := carries₃.same (.priv p) rfl
    have members₂ : σ₂.members (.priv p) = [σ₁.img.size] := by
      have : (σ₁.appendEntry p e).members (.priv p) = [σ₁.img.size] := by
        simp [St.appendEntry, nothing₁]
      exact this
    refine ⟨τ, by simp [DB.wrote, nhash, size], holding₃, onward.trans (carries₃.onward map₃) reads, ?_, ?_, ?_, inv₃, given,
      status.trans carries.status, pos, fun only => ?_⟩
    · rw [own₃.members, members₂, size]
    · rw [size, own₃.entries _ (by rw [members₂]; exact List.mem_singleton_self _)]
      exact (St.appendEntry_entryAt σ₁ p e _).trans (if_pos rfl)
    · rw [fresh₃]
      exact Function.update_self ..
    · rw [aloneT only, alone₃ only]
      simp only [σ₂, alone₁ only]
      exact ⟨rfl, rfl, rfl⟩

end Apue.Db
