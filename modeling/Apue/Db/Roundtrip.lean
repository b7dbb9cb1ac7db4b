import Apue.Db.Damaged
import Apue.Db.Session

/-! # Index records, written and read back

`_db_writeidx` prints a chain pointer and a length into fields of fixed width and a key, an offset
and a length behind them; `_db_readidx` takes them apart again with conversions of its own.
Wherever in the index file the record is written, over other records or past the end, every field
comes back.  `_db_writeptr` at the same place puts another pointer in, and nothing else.
-/

namespace Apue.Db

open Apue.Base

variable {w w' : World Unit File} {db db' : DB} {key : Bytes} {ptrval datoff : Int}
    {datlen start : Nat}

/-! ## Records that can be written -/

/-- A key without NUL and separator, a chain pointer, an `off_t` that is not negative and a length
of a data record, that fit into an index record. -/
structure Writable (key : Bytes) (ptrval datoff : Int) (datlen : Nat) : Prop where
  clean : NulFree key
  plain : sep ∉ key
  pointer : 0 ≤ ptrval ∧ ptrval ≤ ptrMax
  offset : 0 ≤ datoff ∧ datoff < 2 ^ 63
  dataLength : 1 ≤ datlen ∧ datlen ≤ datlenMax
  length : idxlenMin ≤ (idxText key datoff datlen).length ∧
    (idxText key datoff datlen).length ≤ idxlenMax

/-- The bytes of an index record. -/
def idxBytes (key : Bytes) (ptrval datoff : Int) (datlen : Nat) : Bytes :=
  encPtr ptrval.toNat ++ (encLen (idxText key datoff datlen).length ++ idxText key datoff datlen)

/-- `_db_readidx`, led to the place by an offset, returns the pointer and finds the other fields. -/
def Recovers (idx : Bytes) (start : Nat) (key : Bytes) (ptrval datoff : Int)
    (datlen : Nat) : Prop :=
  ∀ (db : DB) (w : World Unit File) (offset : Int), w.bytes .idx = idx →
    w.target () .idx offset (if offset = 0 then .cur else .set) = start →
    ∃ db' w', Exec soloKernel (dbReadidx offset db) w (.returned (ptrval, db')) w' ∧
      w'.bytes = w.bytes ∧ db'.idxoff = start ∧
      cstr db'.idxbuf = key ∧ db'.ptrval = ptrval ∧ db'.datoff = datoff ∧ db'.datlen = datlen ∧
      db'.idxlen = (idxText key datoff datlen).length

theorem idxBytes_length (key : Bytes) (ptrval datoff : Int) (datlen : Nat) :
    (idxBytes key ptrval datoff datlen).length = ptrSz + idxlenSz +
    (idxText key datoff datlen).length := by
  simp [idxBytes, ptrSz, idxlenSz]
  omega

theorem Writable.withPtr (writable : Writable key ptrval datoff datlen) {ptrval' : Int}
    (pointer : 0 ≤ ptrval' ∧ ptrval' ≤ ptrMax) :
    Writable key ptrval' datoff datlen :=
  ⟨writable.clean, writable.plain, pointer, writable.offset, writable.dataLength, writable.length⟩

/-! ## Reading -/

/-- Where a pointer, a length and as long a text stand, `_db_readidx` makes of the record what it
makes of the text. -/
theorem recordAt_of_hasAt {idx text : Bytes} {n : Nat} (small : n ≤ ptrMax)
    (length : idxlenMin ≤ text.length ∧ text.length ≤ idxlenMax)
    (stands : HasAt idx start (encPtr n ++ (encLen text.length ++ text))) :
    recordAt idx start = match parseIdxbuf text with
      | .error error => .error error
      | .ok fields => .ok ⟨n, text.length, fields⟩ := by
  rw [← List.append_assoc] at stands
  obtain ⟨front, behind⟩ := stands.split
  have frontLength : (encPtr n ++ encLen text.length).length = ptrSz + idxlenSz := by
    simp [ptrSz, idxlenSz]
  have frontRead := front.read
  have textRead := behind.read
  rw [frontLength] at frontRead textRead
  rw [recordAt_of_front (by rw [frontRead, frontLength])]
  simp only [frontRead, sizeT_atoi_front n length.2, textRead, atol_front small]
  refine (if_neg (not_or.2 ⟨not_lt.2 length.1, not_lt.2 length.2⟩)).trans
    ((if_neg (not_not_intro rfl)).trans ?_)
  cases parseIdxbuf text <;> rfl

/-- What `_db_readidx` finds where the bytes of a record stand. -/
theorem Writable.recordAt (writable : Writable key ptrval datoff datlen) {idx : Bytes}
    (stands : HasAt idx start (idxBytes key ptrval datoff datlen)) :
    ∃ rest, recordAt idx start =
      .ok ⟨ptrval, (idxText key datoff datlen).length, ⟨key ++ 0 :: rest, datoff, datlen⟩⟩ := by
  obtain ⟨n, rfl⟩ := Int.eq_ofNat_of_zero_le writable.pointer.1
  obtain ⟨m, rfl⟩ := Int.eq_ofNat_of_zero_le writable.offset.1
  have small : n ≤ ptrMax := Int.ofNat_le.1 writable.pointer.2
  have low : m < 2 ^ 63 := by have := writable.offset.2; omega
  obtain ⟨rest, parsed⟩ :=
    parse_idxText writable.clean writable.plain low writable.dataLength.1 writable.dataLength.2
  refine ⟨rest, ?_⟩
  rw [recordAt_of_hasAt small writable.length stands, parsed]

/-- `_db_readidx` at the place returns the pointer, with the other fields in the `DB` structure. -/
theorem Writable.reads (writable : Writable key ptrval datoff datlen)
    (stands : HasAt (w.bytes .idx) start (idxBytes key ptrval datoff datlen)) (db : DB)
    {offset : Int}
    (target : w.target () .idx offset (if offset = 0 then .cur else .set) = start) :
    ∃ rest w', Exec soloKernel (dbReadidx offset db) w (.returned (ptrval, { db with
      idxoff := start, ptrval, idxlen := (idxText key datoff datlen).length, idxbuf :=
        key ++ 0 :: rest, datoff, datlen })) w' ∧
        w'.bytes = w.bytes := by
  obtain ⟨rest, found⟩ := writable.recordAt stands
  have inside := stands.bound
  have solid := idxBytes_length key ptrval datoff datlen
  obtain ⟨outcome, w', reads, ends⟩ := exec_readidx db target
  cases ends with
  | record found' bytes pos =>
    cases found.symm.trans found'
    exact ⟨rest, w', reads, bytes⟩
  | finish behind => exact absurd behind (by simp only [ptrSz] at solid; omega)
  | stops rejected => cases found.symm.trans rejected

theorem Writable.recovers (writable : Writable key ptrval datoff datlen) {idx : Bytes}
    (stands : HasAt idx start (idxBytes key ptrval datoff datlen)) :
    Recovers idx start key ptrval datoff datlen := by
  rintro db w offset rfl target
  obtain ⟨rest, w', reads, bytes⟩ := writable.reads stands db target
  exact ⟨_, w', reads, bytes, rfl, cstr_append_zero writable.clean rest, rfl, rfl, rfl, rfl⟩

/-! ## Writing -/

theorem exec_whenAppending (whence : Whence) {m : DbM Unit}
    (runs : ∃ w', Exec soloKernel (m db) w (.returned ((), db)) w' ∧ w'.bytes = w.bytes ∧
    w'.pos = w.pos) :
    ∃ w', Exec soloKernel (whenAppending whence m db) w (.returned ((), db)) w' ∧
      w'.bytes = w.bytes ∧ w'.pos = w.pos := by
  by_cases appends : whence = .fromEnd
  · rw [whenAppending, if_pos appends]
    exact runs
  · rw [whenAppending, if_neg appends]
    exact ⟨w, .ret _ _, rfl, rfl⟩

/-- The seek and the write, between the two locks. -/
theorem exec_seekWrite {f : Nat → DB → DB} {file : File} {buffer : Bytes} {offset : Int}
    {whence : Whence} {low len : Nat}
    (lock seek put unlock : Err) (short : buffer.length ≤ writeMax)
    (target : w.target () file offset whence = start) :
    ∃ w', Exec soloKernel ((do
      whenAppending whence (writewLock file low len lock)
      let n ← lseek file offset whence seek
      modify (f n)
      write file buffer put
      whenAppending whence (unLock file low len unlock) : DbM Unit) db) w
        (.returned ((), f start db)) w' ∧
        w'.pos () file = start + buffer.length ∧
        w'.bytes = Function.update w.bytes file (writeAt (w.bytes file) start buffer) := by
  obtain ⟨w₁, locks, bytes, pos⟩ :=
    exec_whenAppending whence (exec_lockReg w db file .write low len lock)
  have target₁ : w₁.target () file offset whence = start := by
    rw [← target]
    cases whence <;> simp only [World.target, bytes, pos]
  have seeks := exec_lseek db seek target₁
  let w₂ := w₁.setPos () file start
  have writes : Exec soloKernel (write file buffer put (f start db)) w₂ (.returned ((), f start db))
      ((w₂.setBytes file (writeAt (w₂.bytes file) (w₂.pos () file) buffer)).setPos () file
        (w₂.pos () file + buffer.length)) :=
    exec_write short
  have there : w₂.pos () file = start := setPos_pos_self w₁ file start
  rw [there] at writes
  obtain ⟨w₄, unlocks, bytes₄, pos₄⟩ := exec_whenAppending whence (exec_unLock
    ((w₂.setBytes file (writeAt (w₂.bytes file) start buffer)).setPos () file
      (start + buffer.length)) (f start db)
    file low len unlock)
  refine ⟨w₄, Exec.bind locks (Exec.bind seeks (Exec.bind (.ret _ _) (Exec.bind writes unlocks))),
    ?_, ?_⟩
  · rw [pos₄, setPos_pos_self]
  · rw [bytes₄]
    change Function.update w₁.bytes file (writeAt (w₁.bytes file) start buffer) = _
    rw [bytes]

/-- The rest of `_db_writeidx`, behind its checks. -/
theorem exec_writeidxRecord {text : Bytes} {n : Nat} (pointer : n ≤ ptrMax)
    (short : text.length ≤ idxlenMax) {offset : Int}
    {whence : Whence} (target : w.target () .idx offset whence = start) :
    ∃ w', Exec soloKernel (dbWriteidxRecord text offset whence n db) w
      (.returned ((), { db with idxoff := start })) w' ∧
      w'.pos () .idx = start + (encPtr n ++ (encLen text.length ++ text)).length ∧
      w'.bytes = Function.update w.bytes .idx
        (writeAt (w.bytes .idx) start (encPtr n ++ (encLen text.length ++ text))) := by
  have recordIs : (padLeft ptrSz (decimalInt n) ++ padLeft idxlenSz (decimal text.length)).take
      (ptrSz + idxlenSz) ++ text =
      encPtr n ++ (encLen text.length ++ text) := by
        rw [writeidx_buffer pointer short, List.append_assoc]
  have recordShort : (encPtr n ++ (encLen text.length ++ text)).length ≤ writeMax := by
    have bound : 1024 ≤ writeMax - 11 ∧ 11 ≤ writeMax := by decide
    simp only [List.length_append, encPtr_length, encLen_length, idxlenMax] at *
    omega
  rw [← recordIs] at recordShort ⊢
  exact exec_seekWrite (f := fun n db => { db with idxoff := n }) .writeidxLock .writeidxLseek
    .writeidxWritev .writeidxUnlock
    recordShort target

/-- `_db_writeidx` writes the bytes of the record, with the locks around it where it appends. -/
theorem exec_writeidx (db : DB) (key : Bytes) {n : Nat} (small : n ≤ ptrMax)
    (length : idxlenMin ≤ (idxText (cstr key) db.datoff db.datlen).length ∧
      (idxText (cstr key) db.datoff db.datlen).length ≤ idxlenMax) {offset : Int} {whence : Whence}
    (target : w.target () .idx offset whence = start) :
    ∃ w₁, Exec soloKernel (dbWriteidx key offset whence n db) w (.returned ((), { db with
      ptrval := n, idxbuf := idxText (cstr key) db.datoff db.datlen ++ [0], idxoff := start })) w₁ ∧
      w₁.pos () .idx = start + (idxBytes (cstr key) n db.datoff db.datlen).length ∧
      w₁.bytes = Function.update w.bytes .idx
        (writeAt (w.bytes .idx) start (idxBytes (cstr key) n db.datoff db.datlen)) := by
  obtain ⟨least, most⟩ := length
  set text := idxText (cstr key) db.datoff db.datlen with isText
  let db' : DB := { db with ptrval := n, idxbuf := text ++ [0] }
  obtain ⟨w₁, writes, pos, bytes⟩ :
      ∃ w₁, Exec soloKernel (dbWriteidxRecord text offset whence n db') w
      (.returned ((), { db' with idxoff := start })) w₁ ∧ _ := exec_writeidxRecord small most target
  refine ⟨w₁, ?_, pos, bytes⟩
  refine Exec.bind (.ret _ _) (Code.exec_else (by omega) (Exec.bind (.ret _ _) ?_))
  refine Code.exec_else (by change ¬(text.length + 1 > _); omega) (Exec.bind (.ret _ _) ?_)
  exact Code.exec_else (not_or.2 ⟨not_lt.2 least, not_lt.2 most⟩) writes

theorem exec_writeptr (db : DB) (w : World Unit File) (start : Nat) {n : Nat} (small : n ≤ ptrMax) :
    ∃ w', Exec soloKernel (dbWriteptr start n db) w (.returned ((), db)) w' ∧
      w'.bytes = Function.update w.bytes .idx (writeAt (w.bytes .idx) start (encPtr n)) := by
  have target : w.target () .idx start .set = start := rfl
  have short : (encPtr n).length ≤ writeMax := by
    rw [encPtr_length]
    decide
  let w₁ := w.setPos () .idx start
  have writes : Exec soloKernel (write .idx (encPtr n) .writeptrWrite db) w₁ (.returned ((), db))
      ((w₁.setBytes .idx (writeAt (w₁.bytes .idx) (w₁.pos () .idx) (encPtr n))).setPos () .idx
        (w₁.pos () .idx + (encPtr n).length)) := exec_write short
  rw [show w₁.pos () .idx = start from setPos_pos_self w .idx start] at writes
  rw [← writeptr_buffer] at writes
  exact ⟨_, Code.exec_else (by omega)
    (Exec.bind (exec_lseek db .writeptrLseek target) writes), by rw [writeptr_buffer]; rfl⟩

/-! ## The round trip -/

/-- Another pointer over that of a record: the bytes that then stand there are those of the record
with that pointer. -/
theorem hasAt_withPtr {idx : Bytes} (stands : HasAt idx start (idxBytes key ptrval datoff datlen))
    (ptrval' : Int) :
    HasAt (writeAt idx start (encPtr ptrval'.toNat)) start
      (idxBytes key ptrval' datoff datlen) := by
  obtain ⟨before, after, rfl, rfl⟩ := stands
  refine ⟨before, after, ?_, rfl⟩
  have same : (encPtr ptrval'.toNat).length = (encPtr ptrval.toNat).length := by
    rw [encPtr_length, encPtr_length]
  simp only [idxBytes, List.append_assoc]
  rw [← List.append_assoc before, writeAt_append same, List.append_assoc]

/-- A record of the file's fields, written at any place of the index file: as many bytes are written
as the two fields of fixed width and the stored length say, `_db_readidx` recovers every field
there, and `_db_writeptr` at the place changes the pointer and no byte behind or before it. -/
theorem writeidx_readidx (writable : Writable key ptrval db.datoff db.datlen) {offset : Int}
    {whence : Whence}
    (target : w.target () .idx offset whence = start) :
    ∃ db₁ w₁ record, Exec soloKernel (dbWriteidx key offset whence ptrval db) w
      (.returned ((), db₁)) w₁ ∧ db₁.idxoff = start ∧
      record.length = ptrSz + idxlenSz + (idxText key db.datoff db.datlen).length ∧
        w₁.pos () .idx = start + record.length ∧
      w₁.bytes .idx = writeAt (w.bytes .idx) start record ∧ w₁.bytes .dat = w.bytes .dat ∧
      Recovers (w₁.bytes .idx) start key ptrval db.datoff db.datlen ∧
      ∀ (db' : DB) (w' : World Unit File) (ptrval' : Int), w'.bytes .idx = w₁.bytes .idx →
        0 ≤ ptrval' ∧ ptrval' ≤ ptrMax →
        ∃ w₂, Exec soloKernel (dbWriteptr start ptrval' db') w' (.returned ((), db')) w₂ ∧
          w₂.bytes .dat = w'.bytes .dat ∧
          (∀ i, i < start ∨ start + ptrSz ≤ i → (w₂.bytes .idx)[i]? = (w₁.bytes .idx)[i]?) ∧
          Recovers (w₂.bytes .idx) start key ptrval' db.datoff db.datlen := by
  obtain ⟨n, rfl⟩ := Int.eq_ofNat_of_zero_le writable.pointer.1
  have clean := cstr_of_nulFree writable.clean
  obtain ⟨w₁, writes, pos, bytes⟩ := exec_writeidx db key (Int.ofNat_le.1 writable.pointer.2)
    (by rw [clean]; exact writable.length) target
  rw [clean] at pos bytes
  have idx : w₁.bytes .idx = writeAt (w.bytes .idx) start (idxBytes key n db.datoff db.datlen) := by
    rw [bytes, Function.update_self]
  have dat : w₁.bytes .dat = w.bytes .dat := by rw [bytes, Function.update_of_ne (by decide)]
  have stands : HasAt (w₁.bytes .idx) start (idxBytes key n db.datoff db.datlen) := by
    rw [idx]
    exact hasAt_writeAt ..
  refine ⟨_, w₁, _, writes, rfl, idxBytes_length .., pos, idx, dat, writable.recovers stands, ?_⟩
  intro db' w' ptrval' content pointer
  obtain ⟨m, rfl⟩ := Int.eq_ofNat_of_zero_le pointer.1
  obtain ⟨w₂, overwrites, bytes₂⟩ := exec_writeptr db' w' start (Int.ofNat_le.1 pointer.2)
  have idx₂ : w₂.bytes .idx = writeAt (w₁.bytes .idx) start (encPtr m) := by
    rw [bytes₂, Function.update_self, content]
  have dat₂ : w₂.bytes .dat = w'.bytes .dat := by rw [bytes₂, Function.update_of_ne (by decide)]
  refine ⟨w₂, overwrites, dat₂, ?_, ?_⟩
  · intro i outside
    have inside : start + (encPtr m).length ≤ (w₁.bytes .idx).length := by
      have bound := stands.bound
      rw [idxBytes_length] at bound
      simp only [encPtr_length, ptrSz] at *
      omega
    rw [idx₂, getElem?_writeAt inside (by rw [encPtr_length]; exact outside)]
  · rw [idx₂]
    exact (writable.withPtr pointer).recovers (hasAt_withPtr stands m)

/-- A key with a blank and a newline, and the other fields as wide as they get, behind the end of a
file of one byte. -/
theorem writeidx_readidx_widest : ∃ db₁ w₁, Exec soloKernel
    (dbWriteidx [97, space, newline] 5 .set 9999999 { datoff := 2 ^ 63 - 1, datlen := 1024 })
      (World.absent.setBytes .idx [48]) (.returned ((), db₁)) w₁ ∧
    Recovers (w₁.bytes .idx) 5 [97, space, newline] 9999999 (2 ^ 63 - 1) 1024 := by
  let db : DB := { datoff := 2 ^ 63 - 1, datlen := 1024 }
  let w : World Unit File := World.absent.setBytes .idx [48]
  have writable : Writable [97, space, newline] 9999999 db.datoff db.datlen :=
    ⟨by simp [NulFree, space, newline], by decide, by decide, by decide, by decide, by decide⟩
  have target : w.target () .idx 5 .set = (5 : Nat) := rfl
  obtain ⟨db₁, w₁, -, writes, -, -, -, -, -, recovers, -⟩ := writeidx_readidx writable target
  exact ⟨db₁, w₁, writes, recovers⟩

end Apue.Db
