import Apue.Base.Cut
import Apue.Db.Rejected

/-! # A store that is killed

A store that binds a new key, or puts data of the same length in the place of the old, makes its
change visible with its last write: whichever call it is killed at, the files are a database with
the bindings of before or with those of after.  What it has appended, or taken off the free list, is
lost.
-/

namespace Apue.Db

open Apue.Base St Code

variable {room : Nat} {d d' : Layout} {idx dat : Bytes} {w w' w'' : World Unit File} {db db' : DB}
    {key data : Bytes} {α : Type}

/-! ## One write -/

theorem ReadsOnly.still {m : DbM α} (reads : ReadsOnly m) : Still soloKernel World.bytes m := by
  intro l w w' cut
  obtain ⟨-, same⟩ := Checker.Follows.cut (R := fun _ w' => w'.bytes = w.bytes)
    (fun same may answers => ⟨(), trivial, (ReadsOnly.step may answers).trans same⟩) cut
    (reads.keeps (l := l) (t := ()) trivial) rfl
  exact same

theorem atOnce_write (file : File) (buffer : Bytes) (error : Err) :
    AtOnce soloKernel World.bytes (Db.write file buffer error) :=
  .then_still (.call _) fun (_ : Nat) => .ite (.pure _) (.abort _)

theorem atOnce_writeptr (offset ptrval : Int) :
    AtOnce soloKernel World.bytes (dbWriteptr offset ptrval) :=
  .ite (.of_still (.abort _)) (.after_still (ReadsOnly.lseek ..).still fun _ => atOnce_write _ _ _)

theorem still_whenAppending {whence : Whence} {m : DbM Unit} (reads : ReadsOnly m) :
    Still soloKernel World.bytes (whenAppending whence m) := .ite reads.still (.pure _)

theorem atOnce_writedat (data : Bytes) (offset : Int) (whence : Whence) :
    AtOnce soloKernel World.bytes (dbWritedat data offset whence) :=
  .after_still (still_whenAppending (.lockReg ..)) fun _ => .after_still (ReadsOnly.lseek ..).still
    fun _ => .modifyThen _
    (.then_still (atOnce_write _ _ _) fun _ => still_whenAppending (.unLock ..))

theorem atOnce_writeidx (key : Bytes) (offset : Int) (whence : Whence) (ptrval : Int) :
    AtOnce soloKernel World.bytes (dbWriteidx key offset whence ptrval) := by
  refine .modifyThen _
    (.ite (.of_still (.abort _)) (.get fun _ => .ite (.of_still (.abort _)) (.modifyThen _ ?_)))
  refine .ite (.of_still (.abort _)) (.get fun _ => .after_still (still_whenAppending (.lockReg ..))
    fun _ => ?_)
  exact .after_still (ReadsOnly.lseek ..).still fun _ => .modifyThen _
    (.then_still (atOnce_write _ _ _) fun _ => still_whenAppending (.unLock ..))

theorem ReadsOnly.unlockChain (error : Err) : ReadsOnly (Db.unlockChain error) :=
  .get fun _ => unLock ..

/-- Taking a record off the free list is one write. -/
theorem atOnce_findfree (keylen datlen : Int) :
    AtOnce soloKernel World.bytes (dbFindfree keylen datlen) := by
  have turn (place : Int × Int) : ReadsOnly (findfreeTurn keylen datlen place) :=
    .ite (.pure _) (.bind (ReadsOnly.readidx _) fun _ => .get fun _ => .ite (.pure _) (.pure _))
  refine .after_still (ReadsOnly.lockReg ..).still fun _ => .after_still (ReadsOnly.readptr _).still
    fun offset => ?_
  refine .after_still (ReadsOnly.still (.loop turn (freeOff, offset))) fun place => ?_
  refine .then_still (.ite (.of_still (.pure _)) (.get fun _ => ?_)) fun _ =>
    (ReadsOnly.unLock ..).still.bind fun _ => .pure _
  exact .then_still (atOnce_writeptr _ _) fun _ => .pure _

/-! ## Appending -/

/-- Killed while it appends, the store has appended nothing, or the data, or the data and the
record, or it is done. -/
theorem cut_storeAppend {v : Nat} (small : v ≤ ptrMax) (keyClean : NulFree key)
    (dataClean : NulFree data)
    (returns : Exec soloKernel (storeAppend key data v db) w (.returned ((), db')) w'')
    (cut : Cut soloKernel (storeAppend key data v db) w w') :
    let e : Entry := ⟨v, key, (w.bytes .dat).length, data⟩
    w'.bytes = w.bytes ∨ w'.bytes = withData w data ∨
      (idxlenMin ≤ e.text.length ∧ e.text.length ≤ idxlenMax ∧
        w'.bytes = Function.update (withData w data) .idx (w.bytes .idx ++ e.enc)) ∨
          w'.bytes = w''.bytes := by
  intro e
  obtain ⟨⟨_, db₁⟩, w₁, first, rest⟩ := Exec.of_bind_returned returns
  obtain ⟨-, n, isN, isDb, bytes₁⟩ :=
    Checker.Follows.running (runs_writedat (E := fun _ => True) 0 .fromEnd) first
  have isDb : db₁ = { db with datoff := n, datlen := strlen data + 1 } := isDb
  have atEnd : n = (w.bytes .dat).length := by
    simp only [World.target] at isN
    omega
  rw [cstr_of_nulFree dataClean, atEnd, writeAt_end] at bytes₁
  have isText : e.text = idxText (cstr key) db₁.datoff db₁.datlen := by
    rw [isDb, cstr_of_nulFree keyClean, strlen_of_nulFree dataClean, atEnd]
    rfl
  obtain ⟨⟨_, db₂⟩, w₂, second, third⟩ := Exec.of_bind_returned rest
  obtain ⟨fits, m, isM, -, -, bytes₂⟩ := Checker.Follows.running
    (runs_writeidx (E := fun _ => True) small 0 .fromEnd isText fun _ => trivial) second
  have idx₁ : w₁.bytes .idx = w.bytes .idx := by rw [bytes₁, Function.update_of_ne (by decide)]
  have atIdxEnd : m = (w.bytes .idx).length := by
    simp only [World.target, idx₁] at isM
    omega
  rw [idx₁, atIdxEnd, writeAt_end, bytes₁] at bytes₂
  obtain same | same | cut := (atOnce_writedat _ _ _).cut_bind first cut
  · exact .inl same
  · exact .inr (.inl (same.trans bytes₁))
  obtain same | same | cut := (atOnce_writeidx _ _ _ _).cut_bind second cut
  · exact .inr (.inl (same.trans bytes₁))
  · exact .inr (.inr (.inl ⟨fits.1, fits.2, same.trans bytes₂⟩))
  obtain same | same :=
    AtOnce.get (fun db : DB => atOnce_writeptr db.chainoff db.idxoff) db₂ w₂ w' _ w'' third cut
  · exact .inr (.inr (.inl ⟨fits.1, fits.2, same.trans bytes₂⟩))
  · exact .inr (.inr (.inr same))

/-- The files are a database with the bindings of the map. -/
def Stands (w : World Unit File) (m : Map) : Prop :=
  ∃ d, DbRep (w.bytes .idx) (w.bytes .dat) d ∧ d.map = m

theorem Stands.congr {m : Map} (stands : Stands w m) (same : w'.bytes = w.bytes) : Stands w' m := by
  unfold Stands
  rw [same]
  exact stands

/-- What has been appended is on no list. -/
theorem stands_storeAppend (rep : DbRep (w.bytes .idx) (w.bytes .dat) d) {v : Nat}
    (small : v ≤ ptrMax) (storable : Storable key data)
    (sized : (w.bytes .dat).length < 2 ^ 63)
    (returns : Exec soloKernel (storeAppend key data v db) w (.returned ((), db')) w'')
    (cut : Cut soloKernel (storeAppend key data v db) w w') :
    Stands w' d.map ∨ w'.bytes = w''.bytes := by
  obtain same | same | ⟨textMin, textMax, same⟩ | same :=
    cut_storeAppend small storable.keyClean storable.dataClean returns cut
  · exact .inl ⟨d, by rw [same]; exact rep, rfl⟩
  · refine .inl ⟨d, ?_, rfl⟩
    rw [same, withData, Function.update_self, Function.update_of_ne (by decide)]
    exact rep.grow _
  · let e : Entry := ⟨v, key, (w.bytes .dat).length, data⟩
    have ok : e.Ok := ⟨small, storable.keyClean, storable.keySep, textMin, textMax, sized,
      storable.dataClean, storable.dataMin,
      storable.dataMax⟩
    refine .inl ⟨d.append e, ?_, Layout.append_map rep⟩
    rw [same, withData, Function.update_self, Function.update_of_ne (by decide),
      Function.update_self]
    exact rep.append ok rfl
  · exact .inr same

/-! ## In the place of a free record -/

section

variable {σ τ : St Unit} {op : Op} {x v : Nat} {e e' : Entry} {m : Map}

/-- A process that is killed with a record of its own leaves the bindings of its chain. -/
theorem Taken.stands (inv : Coherent room σ) (taken : Taken σ () op key x e m)
    (elsewhere : ∀ k, dbHash nhashDef k ≠ dbHash nhashDef key → m k = σ.map k) : Stands σ.w m :=
  ⟨σ.left, inv.left taken.holding taken.chain elsewhere⟩

theorem Taken.rewrite (inv : Coherent room σ) (taken : Taken σ () op key x e m)
    (rewrites : Rewrites x e' σ τ) :
    Taken τ () op key x e' m where
  holding l := by
    rw [rewrites.locks]
    exact taken.holding l
  status := by rw [rewrites.obj, taken.status]
  own := by rw [rewrites.members, taken.own]
  fresh := by rw [rewrites.fresh, taken.fresh]
  found := by rw [rewrites.entry, if_pos rfl]
  chain := by
    refine taken.chain.congr ⟨congrFun rewrites.members _,
      fun z member => ?_⟩ (rewrites.slot _ (chainOff_lt (dbHash_lt key)))
    rw [rewrites.entry, if_neg]
    rintro rfl
    cases inv.sorted.one member (show z ∈ σ.members (.priv ()) by rw [taken.own]; simp)

/-- Killed while it puts its record in the place of a free one, the store has bound nothing, or it
is done. -/
theorem stands_storeReuse {flag : Flag} (inv : Coherent room σ)
    (taken : Taken σ () (.store key data flag) key x e σ.map)
    (blank : isBlank e.key = true) (current : Current db x e)
    (keyLength : e.key.length = key.length)
    (dataLength : data.length = e.data.length) (small : v ≤ ptrMax) (storable : Storable key data)
    (returns : Exec soloKernel (storeReuse key data v db) σ.w (.returned ((), db')) w'')
    (cut : Cut soloKernel (storeReuse key data v db) σ.w w') :
    Stands w' σ.map ∨ w'.bytes = w''.bytes := by
  have held : σ.Holds () (keyPlace key) .write := (taken.holding _).2 List.mem_cons_self
  have own : x ∈ σ.members (.priv ()) := by rw [taken.own]; simp
  have okE : e.Ok := inv.img.entry taken.found
  have there : HasAt σ.dat e.doff (e.data ++ [newline]) :=
    inv.stored.there (a := .entry x) (by simp [St.extent, taken.found])
  have stillBlank : Fine σ () { e with data := data } (.priv ()) := by
    intro visible
    rw [show ({ e with data := data } : Entry).key = e.key from rfl, blank] at visible
    cases visible
  -- the data
  obtain ⟨_, db₁, σ₁, first, inv₁, -, isDb₁, rewrites₁⟩ := returns_alone
    (show Triple _ () _ σ (dbWritedat data e.doff .set) db _ from
    triple_writedatAt (d := data) (o := .priv ()) (dbHash_lt key) held
      (cstr_of_nulFree storable.dataClean) dataLength own rfl
      taken.found there stillBlank) inv
  have taken₁ := taken.rewrite inv rewrites₁
  have map₁ : σ₁.map = σ.map := by rw [St.map, rewrites₁.obj]
  have stands : Stands σ.w σ.map := taken.stands inv fun _ _ => rfl
  have stands₁ : Stands σ₁.w σ.map := taken₁.stands inv₁ fun _ _ => by rw [map₁]
  -- the index record
  let e₂ : Entry := ⟨v, key, e.doff, data⟩
  have length : e₂.text.length = e.text.length := by
    simp [Entry.text_length, e₂, Entry.dlen, keyLength, dataLength]
  have ok₂ : e₂.Ok :=
    ⟨small, storable.keyClean, storable.keySep, length ▸ okE.textMin,
    length ▸ okE.textMax, okE.doff,
    storable.dataClean, storable.dataMin, storable.dataMax⟩
  have held₁ : σ₁.Holds () (keyPlace key) .write := (taken₁.holding _).2 List.mem_cons_self
  have own₁ : x ∈ σ₁.members (.priv ()) := by rw [taken₁.own]; simp
  have storing₁ : Fine σ₁ () e₂ (.priv ()) := fun _ => ⟨flag, taken₁.status⟩
  have nobody : (handing x (.priv ()) none).May σ₁ () := trivial
  obtain ⟨_, db₂, σ₂, second, inv₂, -, -, _, rewrites₂, rfl⟩ := returns_alone
    (show Triple _ () _ σ₁ (dbWriteidx key x .set e₂.ptr) db₁ _ from
    triple_writeidxAt (dbHash_lt key) held₁ own₁ rfl taken₁.found ok₂
      (cstr_of_nulFree storable.keyClean) (by rw [isDb₁])
      (by rw [isDb₁]; simp [Entry.dlen, e₂, dataLength])
        (by rw [length, e.text_data dataLength]) rfl rfl
      (fun _ visible => by
        rw [show ({ e with data := data } : Entry).key = e.key from rfl, blank] at visible
        cases visible) nobody storing₁) inv₁
  have taken₂ := taken₁.rewrite inv₁ rewrites₂
  have map₂ : σ₂.map = σ.map := by rw [St.map, rewrites₂.obj]; exact map₁
  have stands₂ : Stands σ₂.w σ.map := taken₂.stands inv₂ fun _ _ => by rw [map₂]
  -- the three writes, one after the other
  have cut : Cut soloKernel
      ((dbWritedat data db.datoff .set >>= fun _ => get >>= fun db =>
      dbWriteidx key db.idxoff .set v >>=
      fun _ => get >>= fun db => dbWriteptr db.chainoff db.idxoff : DbM Unit) db) σ.w w' := cut
  have returns : Exec soloKernel
      ((dbWritedat data db.datoff .set >>= fun _ => get >>= fun db =>
      dbWriteidx key db.idxoff .set v >>=
      fun _ => get >>= fun db => dbWriteptr db.chainoff db.idxoff : DbM Unit) db) σ.w
        (.returned ((), db')) w'' := returns
  rw [current.datoff] at cut returns
  have returns := returns.after first
  obtain same | same | cut := (atOnce_writedat _ _ _).cut_bind first cut
  · exact .inl (stands.congr same)
  · exact .inl (stands₁.congr same)
  have idxoff : db₁.idxoff = x := by rw [isDb₁]; exact current.idxoff
  have cut : Cut soloKernel ((dbWriteidx key db₁.idxoff .set v >>= fun _ => get >>= fun db =>
      dbWriteptr db.chainoff db.idxoff : DbM Unit) db₁) σ₁.w w' := cut
  have returns : Exec soloKernel ((dbWriteidx key db₁.idxoff .set v >>= fun _ => get >>= fun db =>
      dbWriteptr db.chainoff db.idxoff : DbM Unit) db₁) σ₁.w (.returned ((), db')) w'' := returns
  rw [idxoff] at cut returns
  have returns := returns.after second
  obtain same | same | cut := (atOnce_writeidx _ _ _ _).cut_bind second cut
  · exact .inl (stands₁.congr same)
  · exact .inl (stands₂.congr same)
  obtain same | same :=
    AtOnce.get (fun db : DB => atOnce_writeptr db.chainoff db.idxoff) db₂ _ w' _ w'' returns cut
  · exact .inl (stands₂.congr same)
  · exact .inr same

/-! ## The branches of a store -/

/-- The last step of a branch changes nothing. -/
theorem stands_then {m : DbM α} {f : DB → DB} {m' : Map} {w₁ : World Unit File}
    {value : α} {db₁ : DB}
    (first : Cut soloKernel (m db) w w' → Stands w' m' ∨ w'.bytes = w₁.bytes)
    (returns : Exec soloKernel (m db) w (.returned (value, db₁)) w₁)
    (cut : Cut soloKernel ((m >>= fun _ => modify f : DbM PUnit) db) w w') :
    Stands w' m' ∨ w'.bytes = w₁.bytes := by
  obtain inFirst | ⟨_, w₂, returns', last⟩ := Cut.of_bind cut
  · exact first inFirst
  · obtain ⟨isValue, rfl⟩ := returns.deterministic returns'
    cases isValue
    exact .inr (congrArg World.bytes last.of_ret)

/-- The result of a branch changes nothing either. -/
theorem stands_branch {m : DbM Unit} {m' : Map} {rc rc' : Int}
    (branch : ∀ {db' : DB}, Cut soloKernel (m db) w w' →
      Exec soloKernel (m db) w (.returned ((), db')) w'' → Stands w' m' ∨ w'.bytes = w''.bytes)
    (returns : Exec soloKernel ((m >>= fun _ => pure rc : DbM Int) db) w (.returned (rc', db')) w'')
    (cut : Cut soloKernel ((m >>= fun _ => pure rc : DbM Int) db) w w') :
    Stands w' m' ∨ w'.bytes = w''.bytes := by
  obtain ⟨⟨_, db₁⟩, w₁, first, last⟩ := Exec.of_bind_returned returns
  cases last
  obtain inFirst | ⟨_, w₂, returns', last⟩ := Cut.of_bind cut
  · exact branch inFirst first
  · obtain ⟨isValue, rfl⟩ := first.deterministic returns'
    cases isValue
    exact .inr (congrArg World.bytes last.of_ret)

/-- Data of the same length goes in the place of the old. -/
theorem storeOld_atOnce {datlen : Int} {outcome : Outcome Err (Unit × DB)}
    (equal : sizeT datlen = db.datlen)
    (runs : Exec soloKernel (dbStoreOld key data datlen db) w outcome w'')
    (cut : Cut soloKernel (dbStoreOld key data datlen db) w w') :
    w'.bytes = w.bytes ∨ w'.bytes = w''.bytes := by
  let overwrite : DbM Unit := dbWritedat data db.datoff .set >>= fun _ => modify fun db =>
    { db with cntStor4 := db.cntStor4 + 1 }
  have isOverwrite : dbStoreOld key data datlen db = overwrite db :=
    congrFun (if_neg (not_not_intro equal)) db
  rw [isOverwrite] at runs cut
  have atOnce : AtOnce soloKernel World.bytes overwrite :=
    .then_still (atOnce_writedat _ _ _) fun _ => .modified _
  exact atOnce db w w' outcome w'' runs cut

theorem stands_storeNew {flag : Flag} (onChain : OnChain (chainOff (dbHash nhashDef key)) db)
    (inv : Coherent room σ)
    (locked : Locked σ () (.store key data flag) key .write σ.map) (storable : Storable key data)
    (short : key.length < idxlenMax)
    (sized : σ.dat.length < 2 ^ 63)
    (returns : Exec soloKernel
    (dbStoreNew key data (cInt key.length) (cInt (data.length + 1 : Nat)) db) σ.w
    (.returned ((), db')) w'')
    (cut : Cut soloKernel
    (dbStoreNew key data (cInt key.length) (cInt (data.length + 1 : Nat)) db) σ.w w') :
    Stands w' σ.map ∨ w'.bytes = w''.bytes := by
  let code : DbM Unit :=
    dbReadptr db.chainoff >>= fun ptrval => dbFindfree (cInt key.length)
    (cInt (data.length + 1 : Nat)) >>=
    fun free => if free < 0 then (storeAppend key data ptrval >>= fun _ => modify fun db =>
      { db with cntStor1 := db.cntStor1 + 1 })
      else (storeReuse key data ptrval >>= fun _ => modify fun db =>
        { db with cntStor2 := db.cntStor2 + 1 })
  have returns : Exec soloKernel (code db) σ.w (.returned ((), db')) w'' := returns
  have cut : Cut soloKernel (code db) σ.w w' := cut
  have stands : Stands σ.w σ.map := ⟨_, inv.left locked.holding locked.chain fun _ _ => rfl⟩
  dsimp only [code] at returns cut
  rw [onChain.chain] at returns cut
  obtain ⟨_, _, σ₁, reads, inv₁, -, rfl, rfl, rfl, small⟩ :=
    @returns_alone _ db _ _ _ _ (triple_readptr (P := keyPlace key)
    (dbHash_lt key) locked.reads locked.chain.head) inv
  obtain ⟨free, db₂, σ₂, takes, inv₂, -, onChain₂, since, -, -, cases⟩ :=
    returns_alone (triple_findfree onChain (locked.seek _ _)) inv₁
  obtain ⟨map₂, dat₂, -⟩ := since.alone alone
  have map₂ : σ₂.map = σ.map := map₂
  have returns := (returns.after reads).after takes
  obtain same | same | cut := (AtOnce.of_still (ReadsOnly.readptr _).still).cut_bind reads cut
  · exact .inl (stands.congr same)
  · exact .inl (stands.congr same)
  obtain ⟨rfl, locked₂⟩ | ⟨rfl, x, e, smallX, taken, blank, current, keyFits, datFits⟩ := cases
  · have rep₂ := inv₂.left locked₂.holding locked₂.chain fun _ _ => rfl
    have stands₂ : Stands σ₂.w σ.map := ⟨_, rep₂.1, rep₂.2.trans map₂⟩
    obtain same | same | cut := (atOnce_findfree _ _).cut_bind takes cut
    · exact .inl (stands.congr same)
    · exact .inl (stands₂.congr same)
    dsimp only at returns cut
    rw [if_pos (by decide)] at returns cut
    obtain ⟨⟨_, db₃⟩, w₃, appends, last⟩ := Exec.of_bind_returned returns
    have same : w'' = w₃ := by
      cases last
      rfl
    rw [same]
    refine stands_then (fun cut => ?_) appends cut
    rw [← map₂, ← rep₂.2]
    exact stands_storeAppend rep₂.1 small storable (dat₂ ▸ sized) appends cut
  · have stands₂ : Stands σ₂.w σ.map := by
      rw [← map₂]
      exact taken.stands inv₂ fun _ _ => rfl
    obtain same | same | cut := (atOnce_findfree _ _).cut_bind takes cut
    · exact .inl (stands.congr same)
    · exact .inl (stands₂.congr same)
    have keyLength : e.key.length = key.length := by
      simp only [idxlenMax] at short
      rw [keyFits, cInt_of_small (by omega), sizeT_natCast (by omega)]
    have dataLength : data.length = e.data.length := by
      rw [storable.datlen] at datFits
      exact Nat.succ_injective datFits.symm
    dsimp only at returns cut
    rw [if_neg (by decide)] at returns cut
    obtain ⟨⟨_, db₃⟩, w₃, reuses, last⟩ := Exec.of_bind_returned returns
    have same : w'' = w₃ := by
      cases last
      rfl
    rw [same]
    refine stands_then (fun cut => ?_) reuses cut
    rw [← map₂]
    exact stands_storeReuse inv₂ taken blank current keyLength dataLength small storable reuses cut

end

/-- A store of data of the same length as the old, if there is any, is killed before its change or
after it. -/
theorem Usable.store_cut (usable : Usable w db d) {flag : Flag}
    (admits : Admits w (.store key data flag))
    (sameLength : ∀ old, d.map key = some old → flag ≠ .insert → old.length = data.length)
    (cut : Cut soloKernel (dbStore key data flag.code db) w w') :
    Stands w' d.map ∨ Stands w' (mapStore d.map key data flag).2 := by
  obtain ⟨storable, short, fits, dat, -⟩ := id admits
  have start : Stands w d.map := ⟨d, usable.rep, rfl⟩
  obtain ⟨db', w'', d', returns, usable', map, -⟩ | ⟨_, _, _, _, impossible⟩ :=
    usable.store storable (limits_solo usable admits)
  case inr => exact impossible.elim
  -- it is enough that the files are those of before, or those of the end
  have done : Stands w'' (mapStore d.map key data flag).2 := ⟨d', usable'.rep, map⟩
  suffices Stands w' d.map ∨ w'.bytes = w''.bytes from this.imp_right done.congr
  have valid := flag.code_known
  have dataMax := storable.dataMax
  have dataMin := storable.dataMin
  simp only [datlenMax] at dataMax
  have datlen : cInt ((data.length : Int) + 1) = data.length + 1 := by
    have := cInt_of_small (n := data.length + 1) (by omega)
    simpa using this
  unfold dbStore at returns cut
  rw [if_neg valid, strlen_of_nulFree storable.keyClean,
    strlen_of_nulFree storable.dataClean] at returns cut
  have valid : ¬(cInt ((data.length : Int) + 1) < datlenMin ∨
      cInt ((data.length : Int) + 1) > datlenMax) := by
    rw [datlen]
    simp only [datlenMin, datlenMax]
    omega
  rw [if_neg valid] at returns cut
  let op : Op := .store key data flag
  obtain ⟨found, db₁, σ₁, finds, inv₁, -, onChain, locked, visited, located, -, -, -, only⟩ :=
    returns_alone
    (triple_findAndLock storable.keyClean true (usable.ready op) usable.nhash usable.hashoff)
      (usable.coherent (Nat.le_refl _) op)
  have isStart := only alone
  have bytes₁ : σ₁.w.bytes = w.bytes := by rw [isStart]; rfl
  have map₁ : σ₁.map = d.map := by rw [isStart]; rfl
  have dat₁ : σ₁.dat.length < 2 ^ 63 := by
    rw [St.dat, bytes₁]
    exact Nat.lt_of_le_of_lt dat (by decide)
  have stands₁ : Stands σ₁.w d.map := start.congr bytes₁
  obtain ⟨⟨rc, db₂⟩, w₂, stores, unlocks⟩ := Exec.of_bind_returned (returns.after finds)
  have bytes₂ : w''.bytes = w₂.bytes :=
    ((ReadsOnly.unlockChain .storeUnlock).still.bind fun _ => .pure rc) db₂ w₂ w'' unlocks.cut
  rw [bytes₂]
  obtain same | same | cut :=
    (AtOnce.of_still (ReadsOnly.findAndLock key true).still).cut_bind finds cut
  · exact .inl (start.congr same)
  · exact .inl (stands₁.congr same)
  obtain cut | ⟨⟨rc', db₃⟩, w₃, stores', last⟩ := Cut.of_bind cut
  case inr =>
    obtain ⟨isValue, rfl⟩ := stores.deterministic stores'
    cases isValue
    exact .inr (((ReadsOnly.unlockChain .storeUnlock).still.bind fun _ => .pure rc) db₂ w₂ w' last)
  unfold storeFound at stores cut
  dsimp only at stores cut
  obtain ⟨rfl, before, x, e, after, split, -, foundX, sameKey, current, ptroff⟩ | ⟨rfl, -,
    absent⟩ := located
  · -- the key is there
    have bound : d.map key = some e.data := by
      rw [← map₁]
      exact locked.chain.lookup (by simp [split]) foundX sameKey
    rw [if_neg (by decide)] at stores cut
    by_cases isInsert : flag = .insert
    · subst isInsert
      rw [if_pos (show Flag.insert.code = dbInsert from rfl)] at cut
      exact .inl (stands₁.congr (((Still.modified _).bind fun _ => .pure _) db₁ σ₁.w w' cut))
    · rw [if_neg (mt Flag.code_eq_dbInsert.mp isInsert)] at stores cut
      have equal : sizeT (cInt (data.length + 1 : Nat)) = db₁.datlen := by
        rw [storable.datlen, current.datlen, Entry.dlen, sameLength e.data bound isInsert]
      exact stands_branch (m := dbStoreOld key data (cInt (data.length + 1 : Nat)))
        (fun cut stores => (storeOld_atOnce equal stores cut).imp_left stands₁.congr) stores cut
  · have unbound : σ₁.map key = none := locked.chain.lookup_none absent
    rw [if_pos (by decide)] at stores cut
    by_cases isReplace : flag = .replace
    · subst isReplace
      rw [if_pos (show Flag.replace.code = dbReplace from rfl)] at cut
      exact .inl (stands₁.congr (((Still.modified _).bind fun _ => .pure _) db₁ σ₁.w w' cut))
    · rw [if_neg (mt Flag.code_eq_dbReplace.mp isReplace)] at stores cut
      rw [← map₁]
      exact stands_branch (fun cut stores => stands_storeNew onChain inv₁ locked storable short dat₁
        stores cut) stores cut

/-! ## After the crash -/

/-- No call of a process makes the files go. -/
theorem Openable.cut {x : Prog (FileSig File) Err α} (openable : Openable w)
    (cut : Cut soloKernel x w w') : Openable w' := by
  induction cut with
  | here x w => exact openable
  | loop _ inductionHypothesis => exact inductionHypothesis openable
  | call answers rest inductionHypothesis => exact inductionHypothesis (openable.call answers)

/-- Killed at any of its calls, a store that puts no data of another length in the place of the old
has had no effect on the database the next process opens, or all of it; what the calls before it did
is not touched. -/
theorem killed_store_is_atomic {calls : List (Op × Res)} {db₀ db₁ : DB} {w₀ w₁ : World Unit File}
    {flag : Flag}
    (unlocked : w₀.locks = [])
    (opens : Exec soloKernel (dbOpen ⟨true, true⟩ db₀) w₀ (.returned (true, db₁)) w₁)
    (session : Session Admits db₁ w₁ calls db w) (admits : Admits w (.store key data flag))
    (cut : Cut soloKernel (dbStore key data flag.code db) w w') :
    ∃ m, mapRun (fun _ => none) calls = some m ∧
      ((∀ old, m key = some old → flag ≠ .insert → old.length = data.length) →
        ∃ db₂ w₂ d₂, Exec soloKernel (dbOpen ⟨false, false⟩ {}) (w'.exit ()) (.returned (true, db₂))
          w₂ ∧ Usable w₂ db₂ d₂ ∧
          (d₂.map = m ∨ d₂.map = (mapStore m key data flag).2)) := by
  obtain ⟨start, -, -⟩ := Usable.of_open unlocked opens
  obtain ⟨d, usable, -, run⟩ := session.usable start
  refine ⟨d.map, run, fun sameLength => ?_⟩
  have reopened {m : Map} (stands : Stands w' m) :
      ∃ db₂ w₂ d₂, Exec soloKernel (dbOpen ⟨false, false⟩ {}) (w'.exit ())
      (.returned (true, db₂)) w₂ ∧ Usable w₂ db₂ d₂ ∧ d₂.map = m := by
    obtain ⟨d₂, rep, map⟩ := stands
    have openable : Openable w' := (session.openable (.of_open opens)).cut cut
    obtain ⟨db₂, w₂, opens, usable₂, -⟩ := (openable.exited rep).usable
    exact ⟨db₂, w₂, d₂, opens, usable₂, map⟩
  obtain before | after := usable.store_cut admits sameLength cut
  · obtain ⟨db₂, w₂, d₂, opens, usable₂, map⟩ := reopened before
    exact ⟨db₂, w₂, d₂, opens, usable₂, .inl map⟩
  · obtain ⟨db₂, w₂, d₂, opens, usable₂, map⟩ := reopened after
    exact ⟨db₂, w₂, d₂, opens, usable₂, .inr map⟩

/-- A third record has been appended when the process is killed: the next one finds the two
others. -/
theorem killed_store_is_atomic_unlinked :
    ∃ calls db w w' m db₂ w₂ d₂, Cut soloKernel (dbStore [99] [122] dbInsert db) w w' ∧
    (w'.bytes .idx).length = (w.bytes .idx).length + 17 ∧ mapRun (fun _ => none) calls = some m ∧
      calls = [(.store [97] [120] .insert, .rc 0), (.store [98] [121] .insert, .rc 0)] ∧
        Exec soloKernel (dbOpen ⟨false, false⟩ {}) (w'.exit ()) (.returned (true, db₂)) w₂ ∧
          Usable w₂ db₂ d₂ ∧ d₂.map = m := by
  have ran : (((dbOpen ⟨true, true⟩).returns soloKernel 10000 ({}, .absent)).bind fun (ok, s₁) =>
      (sessionRun Admits [.store [97] [120] .insert, .store [98] [121] .insert] ([], s₁)).bind
        fun (calls, s) =>
      ((dbStore [99] [122] dbInsert s.1).killed soloKernel 10000 17 s.2).bind fun w' =>
      ((dbOpen ⟨false, false⟩).returns soloKernel 10000 ({}, w'.exit ())).bind fun (_, s₂) =>
      ((dbFetch [99]).returns soloKernel 10000 s₂).map fun (data, _) =>
        decide (ok = true ∧
          calls = [(.store [97] [120] .insert, .rc 0), (.store [98] [121] .insert, .rc 0)] ∧
          Admits s.2 (.store [99] [122] .insert) ∧
            (w'.bytes .idx).length = (s.2.bytes .idx).length + 17 ∧ data = none)) =
      some true := by
    decide +kernel
  simp only [Option.bind_eq_some_iff, Option.map_eq_some_iff] at ran
  obtain ⟨⟨ok, s₁⟩, opens, ⟨calls, s⟩, session, w', ends, ⟨_, s₂⟩, reopens, ⟨data, _⟩, fetches,
    same⟩ := ran
  obtain ⟨rfl, rfl, admits, grown, rfl⟩ := of_decide_eq_true same
  have cut := Prog.killed_sound ends
  obtain ⟨m, run, reopened⟩ :=
    killed_store_is_atomic rfl (Code.returns_sound opens)
    (sessionRun_sound .start session) admits cut
  cases run
  obtain ⟨db₂, w₂, d₂, opened, usable, before | after⟩ := reopened (by decide)
  · exact ⟨_, s.1, s.2, w', _, db₂, w₂, d₂, cut, grown, rfl, rfl, opened, usable, before⟩
  · -- the record is not on its chain
    obtain ⟨sameDb, rfl⟩ := opened.deterministic (Code.returns_sound reopens)
    cases sameDb
    have absent : d₂.map [99] = none := usable.map_of_fetch (by decide) (Code.returns_sound fetches)
    rw [after] at absent
    cases absent

end Apue.Db
