import Apue.Base.Files

/-! # The database library

`db.c` function by function.  A database is two files: the index file starts with the free-list
pointer and a table of 137 hash-chain pointers, each 7 ASCII digits, then a newline, then the index
records; the data file holds the data records.  An index record is a chain pointer, a 4-digit length
and the text `key:datoff:datlen` with a newline; deleted records keep their place, with a blank key,
on the free list.

The record locks are those of `lockreg.c`: byte 0 of the index file for the free list, the first
byte of a chain pointer for its chain, everything from the first record on for an append to the
index file, and the whole data file for an append to the data file.
-/

namespace Apue.Db

open Apue.Base

inductive File where
  | idx
  | dat
  deriving DecidableEq, Repr

/-! ## Constants -/

abbrev idxlenSz : Nat := 4
abbrev sep : UInt8 := 58
abbrev space : UInt8 := 32
abbrev newline : UInt8 := 10
abbrev ptrSz : Nat := 7
abbrev ptrMax : Nat := 9999999
abbrev nhashDef : Nat := 137
abbrev freeOff : Nat := 0
abbrev hashOff : Nat := ptrSz
abbrev idxlenMin : Nat := 6
abbrev idxlenMax : Nat := 1024
abbrev datlenMin : Nat := 2
abbrev datlenMax : Nat := 1024
abbrev dbInsert : Int := 1
abbrev dbReplace : Int := 2
abbrev dbStoreFlag : Int := 3

/-- The calls of `err_dump` and `err_quit`, named by the function and what it complains about.
`idxbufOverrun` is no message of the library: it marks the `sprintf` of `_db_writeidx` writing past
the end of `idxbuf`. -/
inductive Err where
  | openLock | openInitWrite | openUnlock
  | fetchUnlock | deleteUnlock
  | findWriteLock | findReadLock
  | readptrLseek | readptrRead
  | readidxLseek | readidxReadv | readidxIdxlen | readidxRead | readidxNewline
  | readidxFirstSep | readidxSecondSep | readidxManySeps | readidxDatoff | readidxDatlen
  | readdatLseek | readdatRead | readdatNewline
  | dodeleteLock | dodeleteUnlock
  | writedatLock | writedatLseek | writedatWritev | writedatUnlock
  | writeidxPtr | writeidxLength | writeidxLock | writeidxLseek | writeidxWritev | writeidxUnlock
  | writeptrPtr | writeptrLseek | writeptrWrite
  | storeDatlen | storeUnlock
  | findfreeLock | findfreeUnlock
  | rewindLseek | nextrecLock | nextrecUnlock
  | idxbufOverrun
  deriving DecidableEq, Repr

/-- The library's private representation of the database.  The two buffers hold the bytes last put
there. -/
structure DB where
  idxbuf : Bytes := []
  datbuf : Bytes := []
  idxoff : Nat := 0
  idxlen : Nat := 0
  datoff : Int := 0
  datlen : Nat := 0
  ptrval : Int := 0
  ptroff : Int := 0
  chainoff : Nat := 0
  hashoff : Nat := hashOff
  nhash : Nat := nhashDef
  cntDelok : Nat := 0
  cntDelerr : Nat := 0
  cntFetchok : Nat := 0
  cntFetcherr : Nat := 0
  cntNextrec : Nat := 0
  cntStor1 : Nat := 0
  cntStor2 : Nat := 0
  cntStor3 : Nat := 0
  cntStor4 : Nat := 0
  cntStorerr : Nat := 0
  deriving DecidableEq, Repr

abbrev DbM := Code (FileSig File) Err DB

/-! ## System calls with their error exits -/

def sys (c : FileCall File) : DbM c.Answer := Code.call (S := FileSig File) c

def openFile (file : File) (creat trunc : Bool) : DbM Bool := sys (.openFile file creat trunc)

def close (file : File) : DbM Unit := sys (.close file)

def fstat (file : File) : DbM Nat := sys (.fstat file)

def lseek (file : File) (offset : Int) (whence : Whence) (error : Err) : DbM Nat := do
  let result : Option Nat ← sys (.lseek file offset whence)
  match result with
  | none => Code.abort error
  | some offset => pure offset

def read (file : File) (count : Nat) : DbM Bytes := sys (.read file count)

def write (file : File) (buffer : Bytes) (error : Err) : DbM Unit := do
  let count : Nat ← sys (.write file buffer)
  if count = buffer.length then pure () else Code.abort error

/-- `lock_reg` with `F_SETLKW`; `whence` is `SEEK_SET` in every call. -/
def lockReg (file : File) (type : LockType) (offset len : Nat) (error : Err) : DbM Unit := do
  let granted : Bool ← sys (.setlkw file type (.ofLen offset len))
  if granted then pure () else Code.abort error

def readwLock (file : File) (offset len : Nat) (error : Err) : DbM Unit :=
  lockReg file .read offset len error

def writewLock (file : File) (offset len : Nat) (error : Err) : DbM Unit :=
  lockReg file .write offset len error

def unLock (file : File) (offset len : Nat) (error : Err) : DbM Unit := do
  let released : Bool ← sys (.unlock file (.ofLen offset len))
  if released then pure () else Code.abort error

/-! ## Opening and rewinding -/

/-- `+1` for the free-list pointer and `+1` for the newline after the table. -/
def dbRewind : DbM Unit := do
  let db ← get
  let idxoff ← lseek .idx ((db.nhash + 1) * ptrSz + 1 : Nat) .set .rewindLseek
  modify fun db => { db with idxoff }

/-- The chain pointers `db_open` writes into a new index file: all 0. -/
def emptyTable : Bytes :=
  (List.replicate (nhashDef + 1) (padLeft ptrSz (decimal 0))).flatten ++ [newline]

structure Oflag where
  creat : Bool
  trunc : Bool
  deriving DecidableEq, Repr

/-- `_db_free` closes the descriptors that are open. -/
def dbFree (idxfd datfd : Bool) : DbM Unit := do
  if idxfd then close .idx
  if datfd then close .dat

/-- Write lock the entire index file, check its size, and initialize it. -/
def dbInit : DbM Unit := do
  writewLock .idx 0 0 .openLock
  let size ← fstat .idx
  if size = 0 then
    write .idx emptyTable .openInitWrite
    unLock .idx 0 0 .openUnlock
  else unLock .idx 0 0 .openUnlock

/-- `db_open` on a fresh `DB` structure; the result says whether the handle is other than `NULL`. -/
def dbOpen (oflag : Oflag) : DbM Bool := do
  set ({} : DB)
  let idxfd ← openFile .idx oflag.creat oflag.trunc
  let datfd ← openFile .dat oflag.creat oflag.trunc
  if !idxfd || !datfd then
    dbFree idxfd datfd
    pure false
  else if oflag.creat && oflag.trunc then
    dbInit
    dbRewind
    pure true
  else
    dbRewind
    pure true

/-! ## Hashing -/

/-- A `char` as a signed byte. -/
def signedChar (c : UInt8) : Int := (c.toNat : Int).bmod 256

/-- The loop of `_db_hash` from the `i`-th character on; the sum is an `unsigned long`. -/
def dbHashLoop : Bytes → Nat → Nat → Nat
  | [], _, hval => hval
  | c :: rest, i, hval => dbHashLoop rest (i + 1) (sizeT (hval + cInt (signedChar c * i)))

def dbHash (nhash : Nat) (key : Bytes) : Nat := dbHashLoop (cstr key) 1 0 % nhash

/-! ## Reading -/

def dbReadptr (offset : Int) : DbM Int := do
  let _ ← lseek .idx offset .set .readptrLseek
  let asciiptr ← read .idx ptrSz
  if asciiptr.length ≠ ptrSz then Code.abort .readptrRead else pure (atol asciiptr)

/-- What `_db_readidx` finds in the text of an index record. -/
structure IdxFields where
  idxbuf : Bytes
  datoff : Int
  datlen : Nat

/-- The checks of `_db_readidx` on the text of an index record: the newline and the two separators
become NULs, and the fields behind them are the offset and the length of the data record. -/
def parseIdxbuf (idxbuf : Bytes) : Except Err IdxFields :=
  if idxbuf.getLast? ≠ some newline then .error .readidxNewline
  else
    let idxbuf := idxbuf.dropLast ++ [0]
    match strchr idxbuf sep with
    | none => .error .readidxFirstSep
    | some first =>
      let idxbuf := idxbuf.set first 0
      let ptr1 := first + 1
      match strchr (idxbuf.drop ptr1) sep with
      | none => .error .readidxSecondSep
      | some second =>
        let idxbuf := idxbuf.set (ptr1 + second) 0
        let ptr2 := ptr1 + second + 1
        if strchr (idxbuf.drop ptr2) sep ≠ none then .error .readidxManySeps
        else
          let datoff := atol (idxbuf.drop ptr1)
          let datlen := sizeT (atol (idxbuf.drop ptr2))
          if datoff < 0 then .error .readidxDatoff
          else if datlen = 0 ∨ datlen > datlenMax then .error .readidxDatlen
          else .ok { idxbuf, datoff, datlen }

/-- The rest of `_db_readidx`, once the pointer and the length at the front of the record are
there. -/
def dbReadidxRecord (iov : Bytes) : DbM Int := do
  let ptrval := atol (iov.take ptrSz)
  let idxlen := sizeT (atoi (iov.drop ptrSz))
  modify fun db => { db with ptrval, idxlen }
  if idxlen < idxlenMin ∨ idxlen > idxlenMax then Code.abort .readidxIdxlen
  else
    let idxbuf ← read .idx idxlen
    if idxbuf.length ≠ idxlen then Code.abort .readidxRead
    else
      match parseIdxbuf idxbuf with
      | .error error => Code.abort error
      | .ok fields =>
        modify fun db => { db with idxbuf := fields.idxbuf, datoff := fields.datoff, datlen := fields.datlen }
        pure ptrval

/-- `db_nextrec` passes 0, which reads at the current offset and reports the end of file as -1. -/
def dbReadidx (offset : Int) : DbM Int := do
  let idxoff ← lseek .idx offset (if offset = 0 then .cur else .set) .readidxLseek
  modify fun db => { db with idxoff }
  let iov ← read .idx (ptrSz + idxlenSz)
  if iov.length = ptrSz + idxlenSz then dbReadidxRecord iov
  else if iov.length = 0 ∧ offset = 0 then pure (-1)
  else Code.abort .readidxReadv

def dbReaddat : DbM Bytes := do
  let db ← get
  let _ ← lseek .dat db.datoff .set .readdatLseek
  let datbuf ← read .dat db.datlen
  if datbuf.length ≠ db.datlen then Code.abort .readdatRead
  else if datbuf.getLast? ≠ some newline then Code.abort .readdatNewline
  else
    modify fun db => { db with datbuf := datbuf.dropLast ++ [0] }
    pure (cstr (datbuf.dropLast ++ [0]))

/-- The lock on the chain of the current key: to write if `writelock`, else to read. -/
def lockChain (writelock : Bool) : DbM Unit := do
  let db ← get
  if writelock then writewLock .idx db.chainoff 1 .findWriteLock else readwLock .idx db.chainoff 1 .findReadLock

/-- One turn of the walk along a hash chain; it ends at the key or, with 0, at the end of the
chain. -/
def findTurn (key : Bytes) (offset : Int) : DbM (Int ⊕ Int) := do
  if offset = 0 then pure (.inr 0)
  else
    let nextoffset ← dbReadidx offset
    let db ← get
    if strEq db.idxbuf key then pure (.inr offset)
    else
      modify fun db => { db with ptroff := offset }
      pure (.inl nextoffset)

/-- Returns with the hash chain locked: 0 with the record in the `DB` structure, or -1. -/
def dbFindAndLock (key : Bytes) (writelock : Bool) : DbM Int := do
  modify fun db => { db with
    chainoff := dbHash db.nhash key * ptrSz + db.hashoff, ptroff :=
      (dbHash db.nhash key * ptrSz + db.hashoff : Nat) }
  lockChain writelock
  let db ← get
  let offset ← dbReadptr db.ptroff
  let offset ← Code.loop (findTurn key) offset
  pure (if offset = 0 then -1 else 0)

/-- The branches of `db_fetch`. -/
def fetchFound (found : Int) : DbM (Option Bytes) := do
  if found < 0 then
    modify fun db => { db with cntFetcherr := db.cntFetcherr + 1 }
    pure none
  else
    let data ← dbReaddat
    modify fun db => { db with cntFetchok := db.cntFetchok + 1 }
    pure (some data)

/-- The last step of `db_fetch`, `db_delete` and `db_store`. -/
def unlockChain (error : Err) : DbM Unit := do
  let db ← get
  unLock .idx db.chainoff 1 error

/-- `none` for the null pointer. -/
def dbFetch (key : Bytes) : DbM (Option Bytes) := do
  let found ← dbFindAndLock key false
  let data ← fetchFound found
  unlockChain .fetchUnlock
  pure data

/-- All blanks up to the null byte: the key of a deleted record. -/
def isBlank (key : Bytes) : Bool := key.all (· = space)

/-- One turn of the loop of `db_nextrec`, which skips the blank records. -/
def nextrecTurn (_ : Unit) : DbM (Unit ⊕ Bool) := do
  let ptrval ← dbReadidx 0
  if ptrval < 0 then pure (.inr false)
  else
    let db ← get
    if isBlank (cstr db.idxbuf) then pure (.inl ()) else pure (.inr true)

/-- The key and the data of the record `db_nextrec` has stopped at, if any. -/
def nextrecFound (found : Bool) : DbM (Option (Bytes × Bytes)) := do
  if found then
    let db ← get
    let data ← dbReaddat
    modify fun db => { db with cntNextrec := db.cntNextrec + 1 }
    pure (some (cstr db.idxbuf, data))
  else pure none

/-- The key and the data of the next record; `none` at the end of the index file. -/
def dbNextrec : DbM (Option (Bytes × Bytes)) := do
  readwLock .idx freeOff 1 .nextrecLock
  let found ← Code.loop nextrecTurn ()
  let record ← nextrecFound found
  unLock .idx freeOff 1 .nextrecUnlock
  pure record

/-! ## Writing -/

def dbWriteptr (offset ptrval : Int) : DbM Unit := do
  if ptrval < 0 ∨ ptrval > ptrMax then Code.abort .writeptrPtr
  else
    let _ ← lseek .idx offset .set .writeptrLseek
    write .idx ((padLeft ptrSz (decimalInt ptrval)).take ptrSz) .writeptrWrite

/-- The steps `_db_writedat` and `_db_writeidx` take only when they append. -/
def whenAppending (whence : Whence) (m : DbM Unit) : DbM Unit :=
  if whence = .fromEnd then m else pure ()

def dbWritedat (data : Bytes) (offset : Int) (whence : Whence) : DbM Unit := do
  whenAppending whence (writewLock .dat 0 0 .writedatLock)
  let datoff ← lseek .dat offset whence .writedatLseek
  modify fun db => { db with datoff := datoff, datlen := strlen data + 1 }
  write .dat (cstr data ++ [newline]) .writedatWritev
  whenAppending whence (unLock .dat 0 0 .writedatUnlock)

/-- The text of an index record. -/
def idxText (key : Bytes) (datoff : Int) (datlen : Nat) : Bytes :=
  key ++ [sep] ++ decimalInt datoff ++ [sep] ++ decimal datlen ++ [newline]

/-- The rest of `_db_writeidx`, once `idxbuf` holds a text of a valid length. -/
def dbWriteidxRecord (idxbuf : Bytes) (offset : Int) (whence : Whence) (ptrval : Int) :
    DbM Unit := do
  let db ← get
  let asciiptrlen := padLeft ptrSz (decimalInt ptrval) ++ padLeft idxlenSz (decimal idxbuf.length)
  whenAppending whence (writewLock .idx ((db.nhash + 1) * ptrSz + 1) 0 .writeidxLock)
  let idxoff ← lseek .idx offset whence .writeidxLseek
  modify fun db => { db with idxoff }
  write .idx (asciiptrlen.take (ptrSz + idxlenSz) ++ idxbuf) .writeidxWritev
  whenAppending whence (unLock .idx ((db.nhash + 1) * ptrSz + 1) 0 .writeidxUnlock)

def dbWriteidx (key : Bytes) (offset : Int) (whence : Whence) (ptrval : Int) : DbM Unit := do
  modify fun db => { db with ptrval }
  if ptrval < 0 ∨ ptrval > ptrMax then Code.abort .writeidxPtr
  else
    let db ← get
    let idxbuf := idxText (cstr key) db.datoff db.datlen
    -- idxbuf has room for IDXLEN_MAX + 2 bytes, the terminating NUL included
    if idxbuf.length + 1 > idxlenMax + 2 then Code.abort .idxbufOverrun
    else
      modify fun db => { db with idxbuf := idxbuf ++ [0] }
      let len := idxbuf.length
      if len < idxlenMin ∨ len > idxlenMax then Code.abort .writeidxLength
      else dbWriteidxRecord idxbuf offset whence ptrval

/-- The writes of `_db_dodelete`, made with the free list locked. -/
def dodeleteWrites : DbM Unit := do
  let db ← get
  dbWritedat db.datbuf db.datoff .set
  let freeptr ← dbReadptr freeOff
  let db ← get
  let saveptr := db.ptrval
  dbWriteidx db.idxbuf db.idxoff .set freeptr
  let db ← get
  dbWriteptr freeOff db.idxoff
  dbWriteptr db.ptroff saveptr

/-- The current record, found by `_db_find_and_lock`, goes from its chain to the front of the free
list. -/
def dbDodelete : DbM Unit := do
  modify fun db => { db with
    datbuf := List.replicate (db.datlen - 1) space ++ [0]
    idxbuf := List.replicate (strlen db.idxbuf) space ++ db.idxbuf.drop (strlen db.idxbuf) }
  writewLock .idx freeOff 1 .dodeleteLock
  dodeleteWrites
  unLock .idx freeOff 1 .dodeleteUnlock

/-- The branches of `db_delete`. -/
def deleteFound (found : Int) : DbM Int := do
  if found = 0 then
    dbDodelete
    modify fun db => { db with cntDelok := db.cntDelok + 1 }
    pure 0
  else
    modify fun db => { db with cntDelerr := db.cntDelerr + 1 }
    pure (-1)

def dbDelete (key : Bytes) : DbM Int := do
  let found ← dbFindAndLock key true
  let rc ← deleteFound found
  unlockChain .deleteUnlock
  pure rc

/-- One turn of the walk along the free list, with the offset of the pointer that led to the
record. -/
def findfreeTurn (keylen datlen : Int) (place : Int × Int) : DbM ((Int × Int) ⊕ (Int × Int)) := do
  let (saveoffset, offset) := place
  if offset = 0 then pure (.inr (saveoffset, 0))
  else
    let nextoffset ← dbReadidx offset
    let db ← get
    if strlen db.idxbuf = sizeT keylen ∧
      db.datlen = sizeT datlen then pure (.inr (saveoffset, offset))
    else pure (.inl (offset, nextoffset))

/-- The branches of `_db_findfree`: the record found is unlinked from the free list. -/
def findfreeUnlink (saveoffset offset : Int) : DbM Int := do
  if offset = 0 then pure (-1)
  else
    let db ← get
    dbWriteptr saveoffset db.ptrval
    pure 0

/-- Takes a free record of the right sizes off the free list. -/
def dbFindfree (keylen datlen : Int) : DbM Int := do
  writewLock .idx freeOff 1 .findfreeLock
  let offset ← dbReadptr freeOff
  let (saveoffset, offset) ← Code.loop (findfreeTurn keylen datlen) (freeOff, offset)
  let rc ← findfreeUnlink saveoffset offset
  unLock .idx freeOff 1 .findfreeUnlock
  pure rc

/-- A data record and an index record at the ends of their files, and the index record in front of
its chain. -/
def storeAppend (key data : Bytes) (ptrval : Int) : DbM Unit := do
  dbWritedat data 0 .fromEnd
  dbWriteidx key 0 .fromEnd ptrval
  let db ← get
  dbWriteptr db.chainoff db.idxoff

/-- The same in the place of the free record `_db_findfree` has found. -/
def storeReuse (key data : Bytes) (ptrval : Int) : DbM Unit := do
  let db ← get
  dbWritedat data db.datoff .set
  let db ← get
  dbWriteidx key db.idxoff .set ptrval
  let db ← get
  dbWriteptr db.chainoff db.idxoff

/-- The insertion branch of `db_store`; the chain is locked and the key is not on it. -/
def dbStoreNew (key data : Bytes) (keylen datlen : Int) : DbM Unit := do
  let db ← get
  let ptrval ← dbReadptr db.chainoff
  let free ← dbFindfree keylen datlen
  if free < 0 then
    storeAppend key data ptrval
    modify fun db => { db with cntStor1 := db.cntStor1 + 1 }
  else
    storeReuse key data ptrval
    modify fun db => { db with cntStor2 := db.cntStor2 + 1 }

/-- The replacement branch of `db_store`; the record is in the `DB` structure. -/
def dbStoreOld (key data : Bytes) (datlen : Int) : DbM Unit := do
  let db ← get
  if sizeT datlen ≠ db.datlen then
    dbDodelete
    let db ← get
    let ptrval ← dbReadptr db.chainoff
    storeAppend key data ptrval
    modify fun db => { db with cntStor3 := db.cntStor3 + 1 }
  else
    dbWritedat data db.datoff .set
    modify fun db => { db with cntStor4 := db.cntStor4 + 1 }

/-- The branches of `db_store`. -/
def storeFound (key data : Bytes) (keylen datlen flag found : Int) : DbM Int := do
  if found < 0 then
    if flag = dbReplace then
      modify fun db => { db with cntStorerr := db.cntStorerr + 1 }
      pure (-1)
    else
      dbStoreNew key data keylen datlen
      pure 0
  else if flag = dbInsert then
    modify fun db => { db with cntStorerr := db.cntStorerr + 1 }
    pure 1
  else
    dbStoreOld key data datlen
    pure 0

/-- 0 if OK, 1 if the record exists and `DB_INSERT` is given, -1 on error. -/
def dbStore (key data : Bytes) (flag : Int) : DbM Int := do
  if flag ≠ dbInsert ∧ flag ≠ dbReplace ∧ flag ≠ dbStoreFlag then pure (-1)
  else
    let keylen := cInt (strlen key)
    let datlen := cInt (strlen data + 1)
    if datlen < datlenMin ∨ datlen > datlenMax then Code.abort .storeDatlen
    else
      let found ← dbFindAndLock key true
      let rc ← storeFound key data keylen datlen flag found
      unlockChain .storeUnlock
      pure rc

end Apue.Db
