import Apue.Base.Stopping
import Apue.Db.Bounds
import Apue.Db.Reached

/-! # Overrunning the index buffer

`_db_writeidx` formats the text of an index record into `idxbuf` before it looks at the length, and
`db_store` has checked the data only.  So a long key runs past the `IDXLEN_MAX + 2` bytes of the
buffer when a record is appended.  A record that takes the place of a free one has the lengths of
that one, and so has the blank record of a deletion; these fit.
-/

namespace Apue.Db

open Apue.Base Code

variable {w w' : World Unit File} {db db' : DB} {img : Image} {lists : Slot → List Nat}
    {dat : Bytes} {before after : List Nat}
  {x v : Nat} {e : Entry} {key data : Bytes} {α β : Type} {error : Err} {s : Slot} {flag : Int}

/-- Run from here, the code writes past the end of `idxbuf`. -/
abbrev Overruns (m : DbM α) (db : DB) (w : World Unit File) : Prop :=
  Stops soloKernel .idxbufOverrun m db w

/-- On the array of `_db_alloc`: what the model checks is the room for the text and its NUL. -/
theorem InMemory.sprintf_isSome_iff (allocated : InMemory.Allocated db) (text : Bytes) :
    (copyIn db.idxbuf 0 (text ++ [0])).isSome ↔ ¬text.length + 1 > idxlenMax + 2 := by
  rw [copyIn, allocated.idxbuf, List.length_append, List.length_singleton, Nat.zero_add]
  split <;> simp <;> omega

/-! ## Code without a call of `_db_writeidx` -/

/-- The code formats no index record. -/
abbrev Spares (m : DbM α) : Prop := Never .idxbufOverrun m

namespace Spares

theorem sys (c : FileCall File) : Spares (Db.sys c) := Never.call (S := FileSig File) c

theorem lseek {file : File} {offset : Int} {whence : Whence} (other : error ≠ .idxbufOverrun) :
    Spares (Db.lseek file offset whence error) := by
  refine .bind (sys _) fun result => ?_
  cases result with
  | none => exact Never.abort other
  | some offset => exact .pure offset

theorem read {file : File} {count : Nat} : Spares (Db.read file count) := sys _

theorem write {file : File} {buffer : Bytes} (other : error ≠ .idxbufOverrun) :
    Spares (Db.write file buffer error) :=
  .bind (sys _) fun (_ : Nat) => .ite (.pure _) (Never.abort other)

theorem lockReg {file : File} {type : LockType} {offset len : Nat}
    (other : error ≠ .idxbufOverrun) :
    Spares (Db.lockReg file type offset len error) :=
      .bind (sys _) fun (_ : Bool) => .ite (.pure _) (Never.abort other)

theorem unLock {file : File} {offset len : Nat} (other : error ≠ .idxbufOverrun) :
    Spares (Db.unLock file offset len error) :=
      .bind (sys _) fun (_ : Bool) => .ite (.pure _) (Never.abort other)

theorem unlockChain (other : error ≠ .idxbufOverrun) : Spares (Db.unlockChain error) :=
  .get fun _ => unLock other

theorem readptr (offset : Int) : Spares (dbReadptr offset) :=
  .bind (lseek (by decide)) fun _ => .bind read fun _ => .ite (Never.abort (by decide)) (.pure _)

theorem parseIdxbuf {idxbuf : Bytes} (parsed : Db.parseIdxbuf idxbuf = .error error) :
    error ≠ .idxbufOverrun := by
  rintro rfl
  unfold Db.parseIdxbuf at parsed
  grind

theorem readidx (offset : Int) : Spares (dbReadidx offset) := by
  refine .bind (lseek (by decide)) fun _ => .bind (Never.modified _) fun _ =>
    .bind read fun iov => ?_
  refine .ite ?_ (.ite (.pure _) (Never.abort (by decide)))
  refine .bind (Never.modified _) fun _ => .ite (Never.abort (by decide))
    (.bind read fun idxbuf => ?_)
  refine .ite (Never.abort (by decide)) ?_
  split
  case h_1 error parsed => exact Never.abort (parseIdxbuf parsed)
  case h_2 => exact .bind (Never.modified _) fun _ => .pure _

theorem readdat : Spares dbReaddat := by
  refine .get fun _ => .bind (lseek (by decide)) fun _ => .bind read fun _ => ?_
  exact .ite (Never.abort (by decide))
    (.ite (Never.abort (by decide)) (.bind (Never.modified _) fun _ => .pure _))

theorem findAndLock (key : Bytes) (writelock : Bool) : Spares (dbFindAndLock key writelock) := by
  refine .bind (Never.modified _) fun _ => .bind (.get fun _ => ?_) fun _ => .get fun _ => ?_
  · exact .ite (lockReg (by decide)) (lockReg (by decide))
  refine .bind (readptr _) fun _ => .bind (.loop (fun _ => ?_) _) fun _ => .pure _
  exact .ite (.pure _) (.bind (readidx _) fun _ => .get fun _ =>
    .ite (.pure _) (.bind (Never.modified _) fun _ => .pure _))

theorem fetch (key : Bytes) : Spares (dbFetch key) := by
  refine .bind (findAndLock key false) fun _ => .bind (.ite ?_ ?_) fun _ =>
    .bind (unlockChain (by decide)) fun _ => .pure _
  · exact .bind (Never.modified _) fun _ => .pure _
  · exact .bind readdat fun _ => .bind (Never.modified _) fun _ => .pure _

theorem rewind : Spares dbRewind :=
  .get fun _ => .bind (lseek (by decide)) fun _ => Never.modified _

theorem nextrec : Spares dbNextrec := by
  refine .bind (lockReg (by decide)) fun _ => .bind (.loop (fun _ => ?_) _) fun found => ?_
  · exact .bind (readidx _) fun _ => .ite (.pure _) (.get fun _ => .ite (.pure _) (.pure _))
  · refine .bind (.ite (.get fun _ => .bind readdat fun _ => ?_) (.pure _)) fun _ =>
      .bind (unLock (by decide)) fun _ => .pure _
    exact .bind (Never.modified _) fun _ => .pure _

theorem writeptr (offset ptrval : Int) : Spares (dbWriteptr offset ptrval) :=
  .ite (Never.abort (by decide)) (.bind (lseek (by decide)) fun _ => write (by decide))

theorem whenAppending {whence : Whence} {m : DbM Unit} (spares : Spares m) :
    Spares (Db.whenAppending whence m) :=
  .ite spares (.pure _)

theorem writeidxRecord (idxbuf : Bytes) (offset : Int) (whence : Whence) (ptrval : Int) :
    Spares (dbWriteidxRecord idxbuf offset whence ptrval) := by
  refine .get fun _ => .bind (whenAppending (lockReg (by decide))) fun _ =>
    .bind (lseek (by decide)) fun _ => ?_
  refine .bind (Never.modified _) fun _ => .bind (write (by decide)) fun _ => ?_
  exact whenAppending (unLock (by decide))

theorem «open» (oflag : Oflag) : Spares (dbOpen oflag) := by
  have last (datfd : Bool) : Spares (if datfd = true then close .dat else pure ()) :=
    .ite (sys _) (.pure _)
  have free (idxfd datfd : Bool) : Spares (dbFree idxfd datfd) :=
    .ite (.bind (sys _) fun _ => last datfd) (last datfd)
  have init : Spares dbInit := by
    refine .bind (lockReg (by decide)) fun _ => .bind (sys _) fun (_ : Nat) =>
      .ite ?_ (unLock (by decide))
    exact .bind (write (by decide)) fun _ => unLock (by decide)
  refine .bind ⟨fun _ => .set trivial⟩ fun _ => .bind (sys _) fun (idxfd : Bool) =>
    .bind (sys _) fun (datfd : Bool) => ?_
  refine .ite (.bind (free idxfd datfd) fun _ => .pure _) (.ite ?_ ?_)
  · exact .bind init fun _ => .bind rewind fun _ => .pure _
  · exact .bind rewind fun _ => .pure _

end Spares

/-! ## The text of a new record -/

/-- The text of a record for the key, with its data at `doff`, leaves room for the NUL. -/
def TextFits (key data : Bytes) (doff : Nat) : Prop :=
  strlen key + (decimal doff).length + (decimal (strlen data + 1)).length + 4 ≤ idxlenMax + 2

instance (key data : Bytes) (doff : Nat) : Decidable (TextFits key data doff) :=
  inferInstanceAs (Decidable (_ ≤ _))

theorem textFits_iff (key data : Bytes) (doff : Nat) :
    TextFits key data doff ↔ (idxText (cstr key) doff (strlen data + 1)).length + 1 ≤
      idxlenMax + 2 := by
  rw [TextFits, idxText, decimalInt_natCast]
  simp only [List.length_append, List.length_singleton, strlen]
  omega

theorem overruns_writeidx_iff (db : DB) (key : Bytes) {offset : Int} {whence : Whence}
    (small : v ≤ ptrMax) :
    Overruns (dbWriteidx key offset whence v) db w ↔
      ¬(idxText (cstr key) db.datoff db.datlen).length + 1 ≤ idxlenMax + 2 := by
  let text := idxText (cstr key) db.datoff db.datlen
  let db₁ : DB := { db with ptrval := v }
  have rest : ¬Overruns (do
      modify fun db => { db with idxbuf := text ++ [0] }
      if text.length < idxlenMin ∨ text.length > idxlenMax then Code.abort .writeidxLength
      else dbWriteidxRecord text offset whence v) db₁ w := by
    apply Never.not_stops
    exact .bind (Never.modified _) fun _ => .ite (Never.abort (by decide))
      (Spares.writeidxRecord ..)
  have pointer : ¬((v : Int) < 0 ∨ (v : Int) > ptrMax) := by omega
  refine (stops_bind_iff (Exec.ret ((), db₁) w)).trans ?_
  rw [if_neg pointer]
  refine (stops_bind_iff (Exec.ret (db₁, db₁) w)).trans (stops_if_iff.trans ?_)
  constructor
  · rintro (⟨long, -⟩ | ⟨-, stops⟩)
    · exact not_le.2 long
    · exact absurd stops rest
  · intro long
    exact .inl ⟨not_le.1 long, w, .abort _ _⟩

/-- Data that is too long for one transfer stops the process before what comes behind it. -/
theorem overruns_writedat_iff (db : DB) {offset : Int} {whence : Whence} {n : Nat}
    (target : w.target () .dat offset whence = n)
    {m : Unit → DbM α} {P : Prop}
    (rest : ∀ w₁, strlen data + 1 ≤ writeMax →
    (Overruns (m ()) { db with datoff := n, datlen := strlen data + 1 } w₁ ↔ P)) :
    Overruns (dbWritedat data offset whence >>= m) db w ↔ strlen data + 1 ≤ writeMax ∧ P := by
  by_cases short : strlen data + 1 ≤ writeMax
  · obtain ⟨w₁, writes, -⟩ := exec_writedat db short target
    exact (stops_bind_iff writes).trans ((rest w₁ short).trans (and_iff_right short).symm)
  · obtain ⟨w₁, stops, -⟩ := exec_writedat_partly db short target
    exact iff_of_false (not_stops_bind stops (by decide)) fun both => short both.1

theorem overruns_storeAppend_iff (db : DB) (key data : Bytes) (small : v ≤ ptrMax) :
    Overruns (storeAppend key data v) db w ↔ strlen data + 1 ≤ writeMax ∧
      ¬TextFits key data (w.bytes .dat).length := by
  have target : w.target () .dat 0 .fromEnd = (w.bytes .dat).length := Int.add_zero _
  refine overruns_writedat_iff db target fun w₁ _ =>
    (stops_bind_never fun _ => .get fun _ => Spares.writeptr ..).trans ?_
  rw [textFits_iff]
  exact overruns_writeidx_iff _ key small

/-- In the place of a free record only a key whose length is not that of its `int` overruns the
buffer. -/
theorem overruns_storeReuse_iff (written : e.Written) (current : Current db x e)
    (small : v ≤ ptrMax)
    (keylen : (e.key.length : Int) = cInt (strlen key))
    (datlen : (e.dlen : Int) = cInt (strlen data + 1 : Nat)) :
    Overruns (storeReuse key data v) db w ↔ strlen data + 1 ≤ writeMax ∧ ¬strlen key < 2 ^ 31 := by
  have target : w.target () .dat db.datoff .set = e.doff := current.datoff
  refine (stops_bind_iff (Exec.ret (db, db) w)).trans
    (overruns_writedat_iff db target fun w₁ short => ?_)
  let db₁ : DB := { db with datoff := e.doff, datlen := strlen data + 1 }
  refine (stops_bind_iff (Exec.ret (db₁, db₁) w₁)).trans
    ((stops_bind_never fun _ => .get fun _ => Spares.writeptr ..).trans ?_)
  refine (overruns_writeidx_iff db₁ key small).trans (not_congr ?_)
  have sameData : strlen data + 1 = e.dlen := by
    simp only [writeMax] at short
    rw [cInt_of_small (by omega)] at datlen
    exact (Int.ofNat_inj.1 datlen).symm
  constructor
  · intro fits
    have keyShort : strlen key ≤ (idxText (cstr key) db₁.datoff db₁.datlen).length := by
      simp only [idxText, List.length_append, strlen]
      omega
    simp only [idxlenMax] at fits
    omega
  · intro keyShort
    rw [cInt_of_small keyShort] at keylen
    have length := Entry.reused_text_length (Int.ofNat_inj.1 keylen).symm sameData v
    have most := written.length.2
    rw [← length] at most
    change (e.reused v key data).text.length + 1 ≤ idxlenMax + 2
    omega

/-! ## Storing -/

/-- The record of a key that is not bound fits: in the place of a free one of these lengths, or with
its data at the end. -/
def Image.NewFits (img : Image) (free : List Nat) (size : Nat) (key data : Bytes) : Prop :=
  ((∃ x ∈ free, img.Sized (cInt (strlen key)) (cInt (strlen data + 1 : Nat)) x) →
    strlen key < 2 ^ 31) ∧
    ((¬∃ x ∈ free, img.Sized (cInt (strlen key)) (cInt (strlen data + 1 : Nat)) x) →
      TextFits key data size)

theorem Placed.overruns_storeNew_iff (placed : Placed (w.bytes .idx) (w.bytes .dat) img lists)
    (onChain : OnChain s.off db)
    (key data : Bytes) :
    Overruns (dbStoreNew key data (cInt (strlen key)) (cInt (strlen data + 1 : Nat))) db w ↔
      strlen data + 1 ≤ writeMax ∧ ¬img.NewFits (lists 0) (w.bytes .dat).length key data := by
  have next := placed.start s
  have small := placed.small next
  obtain ⟨w₁, reads, bytes₁⟩ := exec_readptr db (placed.ptr_hasAt next) small
  rw [← onChain.chain] at reads
  refine (stops_bind_iff (Exec.ret (db, db) w)).trans ((stops_bind_iff reads).trans ?_)
  rw [← bytes₁] at placed ⊢
  obtain ⟨rc, db₂, w₂, takes, taken, -⟩ :=
    placed.exec_findfree (isInt_cInt (strlen key)) (isInt_cInt (strlen data + 1 : Nat)) db
  refine (stops_bind_iff takes).trans ?_
  cases taken with
  | none unfit bytes₂ =>
    have none : ¬∃ x ∈ lists 0, img.Sized (cInt (strlen key)) (cInt (strlen data + 1 : Nat)) x := by
      rintro ⟨x, member, sized⟩
      exact unfit x member sized
    rw [if_pos (by decide)]
    refine (stops_bind_never fun _ => Never.modified _).trans
      ((overruns_storeAppend_iff db₂ key data small).trans ?_)
    simp only [Image.NewFits, none, bytes₂, false_implies, true_and, not_false_eq_true,
      true_implies]
  | @first before after x e _ _ fit current bytes₂ =>
    have some : ∃ x ∈ lists 0, img.Sized (cInt (strlen key)) (cInt (strlen data + 1 : Nat)) x :=
      ⟨x, by simp [fit.split], e, fit.found, fit.key, fit.data⟩
    have written := placed.all.entry fit.found
    rw [if_neg (by decide)]
    refine (stops_bind_never fun _ => Never.modified _).trans
      ((overruns_storeReuse_iff written current small fit.key fit.data).trans ?_)
    simp only [Image.NewFits, some, not_true_eq_false, false_implies, and_true, true_implies]

theorem Placed.overruns_storeOld_iff (placed : Placed (w.bytes .idx) (w.bytes .dat) img lists)
    (chain : s ≠ 0)
    (hit : Hit img (lists s) s.off db before x after e) (onChain : OnChain s.off db)
    (key data : Bytes) :
    Overruns (dbStoreOld key data (cInt (strlen data + 1 : Nat))) db w ↔
      strlen data + 1 ≤ writeMax ∧
        ¬(e.dlen ≠ strlen data + 1 → TextFits key data (w.bytes .dat).length) := by
  refine (stops_bind_iff (Exec.ret (db, db) w)).trans (stops_if_iff.trans ?_)
  rw [hit.current.datlen]
  obtain ⟨db₁, w₁, deletes, ⟨img₁, lists₁, placed₁⟩, datLength, onChain₁⟩ :=
    placed.exec_dodelete chain hit onChain
  have next := placed₁.start s
  have small := placed₁.small next
  obtain ⟨w₂, reads, bytes₂⟩ := exec_readptr db₁ (placed₁.ptr_hasAt next) small
  rw [← onChain₁.chain] at reads
  have size : (w₂.bytes .dat).length = (w.bytes .dat).length := by rw [bytes₂, datLength]
  have appends : Overruns (do
      dbDodelete
      let db ← get
      let ptrval ← dbReadptr db.chainoff
      storeAppend key data ptrval
      modify fun db => { db with cntStor3 := db.cntStor3 + 1 }) db w ↔
        strlen data + 1 ≤ writeMax ∧ ¬TextFits key data (w₂.bytes .dat).length := by
    refine (stops_bind_iff deletes).trans
      ((stops_bind_iff (Exec.ret (db₁, db₁) w₁)).trans ((stops_bind_iff reads).trans ?_))
    exact (stops_bind_never fun _ => Never.modified _).trans
      (overruns_storeAppend_iff db₁ key data small)
  have overwrites : ¬Overruns (do
      dbWritedat data db.datoff .set
      modify fun db => { db with cntStor4 := db.cntStor4 + 1 }) db w := by
    have target : w.target () .dat db.datoff .set = e.doff := hit.current.datoff
    intro stops
    refine ((overruns_writedat_iff (P := False) db target fun w₁ _ => ?_).1 stops).2
    exact iff_of_false (Never.modified _).not_stops id
  rw [size] at appends
  simp only [appends, overwrites, and_false, or_false, Classical.not_imp]
  constructor
  · rintro ⟨different, short, unfit⟩
    refine ⟨short, fun same => different ?_, unfit⟩
    simp only [writeMax] at short
    rw [cInt_of_small (by omega), sizeT_natCast (by omega), same]
  · rintro ⟨short, different, unfit⟩
    refine ⟨fun same => different ?_, short, unfit⟩
    simp only [writeMax] at short
    rw [← same, cInt_of_small (by omega), sizeT_natCast (by omega)]

/-- The record that `db_store` comes to write, if it comes so far, fits `idxbuf`.  The walk for the
key stops the process at a record with a separator in its key; a key that is bound is written again
only with data of another length. -/
def Image.RecordFits (img : Image) (lists : Slot → List Nat) (size : Nat) (key data : Bytes)
    (flag : Int) : Prop :=
  match img.sought key (lists (Slot.ofKey key)) with
  | none => flag ≠ dbReplace → img.NewFits (lists 0) size key data
  | some e => sep ∉ e.key → flag ≠ dbInsert → e.dlen ≠ strlen data + 1 → TextFits key data size

def IsFlag (flag : Int) : Prop := flag = dbInsert ∨ flag = dbReplace ∨ flag = dbStoreFlag

def DataLengthOk (data : Bytes) : Prop := datlenMin ≤ strlen data + 1 ∧ strlen data + 1 ≤ datlenMax

/-- A length that is valid only as an `int` is too long for one transfer. -/
theorem dataLengthOk_iff (data : Bytes) : DataLengthOk data ↔
    ¬(cInt (strlen data + 1 : Nat) < datlenMin ∨ cInt (strlen data + 1 : Nat) > datlenMax) ∧
      strlen data + 1 ≤ writeMax := by
  have bound : datlenMax ≤ writeMax ∧ writeMax < 2 ^ 31 := by decide
  constructor
  · rintro ⟨least, most⟩
    rw [cInt_of_small (by omega)]
    omega
  · rintro ⟨valid, short⟩
    rw [cInt_of_small (by omega)] at valid
    unfold DataLengthOk
    omega

theorem Placed.overruns_storeFound_iff (placed : Placed (w.bytes .idx) (w.bytes .dat) img lists)
    (nhash : db.nhash = nhashDef)
    (hashoff : db.hashoff = hashOff) (key data : Bytes) (flag : Int) :
    Overruns (do
      let found ← dbFindAndLock key true
      storeFound key data (cInt (strlen key)) (cInt (strlen data + 1 : Nat)) flag found) db w ↔
        strlen data + 1 ≤ writeMax ∧ ¬img.RecordFits lists (w.bytes .dat).length key data flag := by
  obtain ⟨outcome, w₁, walks, bytes₁, searched⟩ := placed.exec_find nhash hashoff key true
  rw [← bytes₁] at placed ⊢
  have chain := Slot.ofKey_ne_zero key
  have counts (db₁ : DB) (rc : Int) : ¬Overruns (do
      modify fun db => { db with cntStorerr := db.cntStorerr + 1 }
      pure rc) db₁ w₁ := Never.not_stops (.bind (Never.modified _) fun _ => .pure _)
  cases searched with
  | @absent db₁ none onChain =>
    rw [← Slot.off_ofKey] at onChain
    have stores := (stops_bind_never (fun _ => .pure (0 : Int))).trans
      (placed.overruns_storeNew_iff onChain key data)
    refine (stops_bind_iff walks).trans ?_
    rw [storeFound, if_pos (by decide), Image.RecordFits, none]
    refine stops_if_iff.trans ?_
    simp only [counts, stores, and_false, false_or]
    tauto
  | @present db₁ before after x e found hit onChain =>
    rw [← Slot.off_ofKey] at hit onChain
    have stores := (stops_bind_never (fun _ => .pure (0 : Int))).trans
      (placed.overruns_storeOld_iff chain hit onChain key data)
    refine (stops_bind_iff walks).trans ?_
    rw [storeFound, if_neg (by decide), Image.RecordFits, found]
    refine stops_if_iff.trans ?_
    simp only [counts, stores, and_false, false_or]
    have plain := hit.plain
    tauto
  | unreadable found member =>
    refine iff_of_false (not_stops_bind walks (by decide)) ?_
    rintro ⟨-, unfit⟩
    refine unfit ?_
    rw [Image.RecordFits, found]
    exact fun plain => absurd member plain

theorem Placed.overruns_store_iff (placed : Placed (w.bytes .idx) (w.bytes .dat) img lists)
    (nhash : db.nhash = nhashDef)
    (hashoff : db.hashoff = hashOff) (key data : Bytes) (flag : Int) :
    Overruns (dbStore key data flag) db w ↔
      IsFlag flag ∧ DataLengthOk data ∧
        ¬img.RecordFits lists (w.bytes .dat).length key data flag := by
  by_cases isFlag : IsFlag flag
  swap
  · have none : Exec soloKernel (dbStore key data flag db) w (.returned (-1, db)) w := by
      refine Code.exec_if ?_ (.ret _ _)
      simpa only [IsFlag, not_or] using isFlag
    exact iff_of_false (not_stops_of_returned none) fun stops => isFlag stops.1
  have stores : Overruns (do
      let found ← dbFindAndLock key true
      let rc ← storeFound key data (cInt (strlen key)) (cInt (strlen data + 1 : Nat)) flag found
      unlockChain .storeUnlock
      pure rc) db w ↔ strlen data + 1 ≤ writeMax ∧
        ¬img.RecordFits lists (w.bytes .dat).length key data flag := by
    refine (stops_bind_congr fun _ _ _ => stops_bind_never fun rc => ?_).trans
      (placed.overruns_storeFound_iff nhash hashoff key data flag)
    exact .bind (Spares.unlockChain (by decide)) fun _ => .pure rc
  have refuses : ¬Overruns (Code.abort .storeDatlen : DbM Int) db w :=
    Never.not_stops (Never.abort (by decide))
  have checks : Overruns (dbStore key data flag) db w ↔
      ¬(cInt (strlen data + 1 : Nat) < datlenMin ∨ cInt (strlen data + 1 : Nat) > datlenMax) ∧
        strlen data + 1 ≤ writeMax ∧
        ¬img.RecordFits lists (w.bytes .dat).length key data flag := by
    rw [dbStore, if_neg (by simpa only [IsFlag, ← not_or, not_not] using isFlag), ← stores]
    refine stops_if_iff.trans ?_
    simp only [refuses, and_false, false_or]
    exact Iff.rfl
  rw [checks, dataLengthOk_iff, and_assoc]
  exact (and_iff_right isFlag).symm

/-! ## Runs of calls -/

/-- The index record that a call comes to write for a new key, if any, fits `idxbuf`, as the files
before the call say. -/
def Op.Fits (files : File → Bytes) : Op → Prop
  | .store key data flag =>
    DataLengthOk data → ∀ img lists, Placed (files .idx) (files .dat) img lists →
      img.RecordFits lists (files .dat).length key data flag.code
  | _ => True

theorem Flag.isFlag (flag : Flag) : IsFlag flag.code := by
  cases flag
  · exact .inl rfl
  · exact .inr (.inl rfl)
  · exact .inr (.inr rfl)

theorem Placed.not_overruns_delete (placed : Placed (w.bytes .idx) (w.bytes .dat) img lists)
    (nhash : db.nhash = nhashDef)
    (hashoff : db.hashoff = hashOff) (key : Bytes) : ¬Overruns (dbDelete key) db w := by
  obtain ⟨outcome, w₁, walks, bytes₁, searched⟩ := placed.exec_find nhash hashoff key true
  rw [← bytes₁] at placed
  have unlocks (rc : Int) : Spares (do unlockChain .deleteUnlock; pure rc) :=
    .bind (Spares.unlockChain (by decide)) fun _ => .pure rc
  cases searched with
  | @absent db₁ none onChain =>
    refine fun stops => Never.not_stops ?_ ((stops_bind_iff walks).1 stops)
    exact .bind (.bind (Never.modified _) fun _ => .pure _) unlocks
  | @present db₁ before after x e found hit onChain =>
    rw [← Slot.off_ofKey] at hit
    obtain ⟨db₂, w₂, deletes, -⟩ := placed.exec_dodelete (Slot.ofKey_ne_zero key) hit onChain
    intro stops
    have inside := (stops_bind_never unlocks).1 ((stops_bind_iff walks).1 stops)
    refine Never.not_stops ?_ ((stops_bind_iff deletes).1 inside)
    exact .bind (Never.modified _) fun _ => .pure _
  | unreadable found member => exact not_stops_bind walks (by decide)

/-- A call overruns the buffer just if it is a store whose record does not fit. -/
theorem Placed.overruns_call_iff (placed : Placed (w.bytes .idx) (w.bytes .dat) img lists)
    (nhash : db.nhash = nhashDef)
    (hashoff : db.hashoff = hashOff) (op : Op) : Overruns (dbCall op) db w ↔ ¬op.Fits w.bytes := by
  have spared {m : DbM Res} (never : Spares m) : Overruns m db w ↔ ¬True :=
    iff_of_false never.not_stops (not_not_intro trivial)
  cases op with
  | «open» oflag => exact spared (.bind (Spares.open oflag) fun _ => .pure _)
  | fetch key => exact spared (.bind (Spares.fetch key) fun _ => .pure _)
  | store key data flag =>
    refine (stops_bind_never fun _ => .pure _).trans ?_
    constructor
    · intro stops fits
      obtain ⟨-, lengthOk, unfit⟩ :=
        (placed.overruns_store_iff nhash hashoff key data flag.code).1 stops
      exact unfit (fits lengthOk img lists placed)
    · intro unfit
      by_contra stops
      refine unfit fun lengthOk img' lists' placed' => ?_
      by_contra unfit'
      exact stops ((placed'.overruns_store_iff nhash hashoff key data flag.code).2 ⟨flag.isFlag,
        lengthOk, unfit'⟩)
  | delete key =>
    refine (stops_bind_never fun _ => .pure _).trans (iff_of_false ?_ (not_not_intro trivial))
    exact placed.not_overruns_delete nhash hashoff key
  | rewind => exact spared (.bind Spares.rewind fun _ => .pure _)
  | nextrec => exact spared (.bind Spares.nextrec fun _ => .pure _)

/-- A call that was made, with the world it was made in and how it ended. -/
structure Made where
  world : World Unit File
  op : Op
  outcome : Outcome Err (Res × DB)

/-- The calls made on a new database, the last one first, and the files they leave.  Each is made
through a handle and from any offset, and goes to its end or stops the process. -/
inductive Calls : List Made → (File → Bytes) → Prop where
  | created {w w' : World Unit File} {db db' : DB} (unlocked : w.locks = [])
      (opens : Exec soloKernel (dbOpen ⟨true, true⟩ db) w (.returned (true, db')) w') :
        Calls [] w'.bytes
  | call {made : List Made} {w w' : World Unit File} {db : DB} {op : Op} {outcome : Outcome Err (Res × DB)}
      (earlier : Calls made w.bytes) (nhash : db.nhash = nhashDef) (hashoff : db.hashoff = hashOff)
      (sized : (w.bytes .dat).length < 2 ^ 63) (keeps : ∀ oflag, op = .open oflag →
        oflag.trunc = false)
      (runs : Exec soloKernel (dbCall op db) w outcome w') :
        Calls (⟨w, op, outcome⟩ :: made) w'.bytes

theorem Calls.reached {made : List Made} {files : File → Bytes} (calls : Calls made files) :
    Reached files := by
  induction calls with
  | created unlocked opens => exact .created unlocked opens
  | call _ nhash hashoff sized keeps runs earlier =>
    exact .call earlier nhash hashoff sized keeps runs

/-- No call of a run writes past the end of `idxbuf`, just if every index record that a store of the
run comes to write fits. -/
theorem idxbuf_kept_iff {made : List Made} {files : File → Bytes} (calls : Calls made files) :
    (∀ call ∈ made, call.outcome ≠ .aborted .idxbufOverrun) ↔
      ∀ call ∈ made, call.op.Fits call.world.bytes := by
  induction calls with
  | created _ _ => simp
  | @call made w w' db op outcome earlier nhash hashoff _ _ runs inductionHypothesis =>
    obtain ⟨img, lists, placed⟩ := earlier.reached.hasPlaces
    have here : outcome ≠ .aborted .idxbufOverrun ↔ op.Fits w.bytes := by
      rw [← not_iff_not,
        not_not, ← stops_iff_of_exec runs, ← placed.overruns_call_iff nhash hashoff]
    rw [List.forall_mem_cons, List.forall_mem_cons, inductionHypothesis, here]

/-- A record of a short key fits. -/
theorem idxbuf_kept_iff_short :
    ∃ (w : World Unit File) (outcome : Outcome Err (Res × DB)) (files : File → Bytes),
    Calls [⟨w, .store [97] [120] .insert, outcome⟩] files ∧
      Op.Fits w.bytes (.store [97] [120] .insert) := by
  have ran : (((dbOpen ⟨true, true⟩).returns soloKernel 10000 ({}, .absent)).bind fun (ok, s₁) =>
      ((dbCall (.store [97] [120] .insert)).returns soloKernel 10000 s₁).map fun _ =>
        decide (ok = true ∧ s₁.1.nhash = nhashDef ∧ s₁.1.hashoff = hashOff ∧
          (s₁.2.bytes .dat).length < 2 ^ 63)) = some true := by
    decide +kernel
  simp only [Option.bind_eq_some_iff, Option.map_eq_some_iff] at ran
  obtain ⟨⟨ok, s₁⟩, opens, ⟨res, s₂⟩, stores, facts⟩ := ran
  obtain ⟨rfl, nhash, hashoff, sized⟩ := of_decide_eq_true facts
  have calls := Calls.call (.created rfl (Code.returns_sound opens)) nhash hashoff sized
    (fun _ same => by cases same)
    (Code.returns_sound stores)
  exact ⟨s₁.2, _, _, calls, (idxbuf_kept_iff calls).1 (by simp) _ List.mem_cons_self⟩

/-- The text of a record with a key of 1021 bytes runs one byte past the end. -/
theorem long_key_overruns : ∃ (w : World Unit File) (files : File → Bytes),
    Calls [⟨w, .store (List.replicate 1021 97) [120] .insert, .aborted .idxbufOverrun⟩] files ∧
      (idxText (List.replicate 1021 97) (w.bytes .dat).length 2).length + 1 = idxlenMax +
        2 + 1 := by
  have ran : (((dbOpen ⟨true, true⟩).returns soloKernel 10000 ({}, .absent)).bind fun (ok, s₁) =>
      ((dbCall (.store (List.replicate 1021 97) [120] .insert)).aborts soloKernel 10000 s₁).map
          fun (error, _) =>
        decide (ok = true ∧ s₁.1.nhash = nhashDef ∧ s₁.1.hashoff = hashOff ∧
          (s₁.2.bytes .dat).length = 0 ∧
          error = .idxbufOverrun)) = some true := by
    decide +kernel
  simp only [Option.bind_eq_some_iff, Option.map_eq_some_iff] at ran
  obtain ⟨⟨ok, s₁⟩, opens, ⟨error, w'⟩, stops, facts⟩ := ran
  obtain ⟨rfl, nhash, hashoff, empty, rfl⟩ := of_decide_eq_true facts
  have sized : (s₁.2.bytes .dat).length < 2 ^ 63 :=
    Nat.lt_of_le_of_lt (Nat.le_of_eq empty) (by decide)
  have calls := Calls.call (.created rfl (Code.returns_sound opens)) nhash hashoff sized
    (fun _ same => by cases same)
    (Code.aborts_sound stops)
  refine ⟨s₁.2, w'.bytes, calls, ?_⟩
  rw [empty]
  decide +kernel

end Apue.Db
