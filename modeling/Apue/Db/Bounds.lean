import Apue.Base.Buffer
import Apue.Db.Damaged

/-! # The arrays of the database library

`_db_readidx`, `_db_readdat` and the blanking loops of `_db_dodelete` once more, on the arrays they
work on: the two buffers of `_db_alloc`, which keep what was behind the record last read, and the
two arrays for the front of an index record.  An access outside an array is a way to stop, beside
`err_dump`.

Whatever the files hold, `_db_readidx` does not stop so, and what it returns with keeps the
functions that follow inside too.
-/

namespace Apue.Db.InMemory

open Apue.Base

variable {α : Type}

inductive Stop where
  | dump (error : Err)
  | outside
  deriving DecidableEq, Repr

/-- The arrays in the frame of `_db_readidx`. -/
structure Locals where
  asciiptr : Bytes
  asciilen : Bytes

structure Locals.Allocated (locals : Locals) : Prop where
  asciiptr : locals.asciiptr.length = ptrSz + 1
  asciilen : locals.asciilen.length = idxlenSz + 1

/-- The buffers of `_db_alloc`: 2 more than a record, for a newline and a NUL. -/
structure Allocated (db : DB) : Prop where
  idxbuf : db.idxbuf.length = idxlenMax + 2
  datbuf : db.datbuf.length = datlenMax + 2

abbrev MemM := Code (FileSig File) Stop DB

def sys (c : FileCall File) : MemM c.Answer := Code.call (S := FileSig File) c

def dump (error : Err) : MemM α := Code.abort (.dump error)

def access (result : Option α) : MemM α :=
  match result with
  | none => Code.abort .outside
  | some value => pure value

def lseek (file : File) (offset : Int) (whence : Whence) (error : Err) : MemM Nat := do
  let result : Option Nat ← sys (.lseek file offset whence)
  match result with
  | none => dump error
  | some offset => pure offset

/-- A `read` into an array, which has to have room for as many bytes as are asked for; the count and
the array. -/
def readInto (file : File) (buf : Bytes) (count : Nat) : MemM (Nat × Bytes) := do
  let _ ← access (copyOut buf 0 count)
  let bytes : Bytes ← sys (.read file count)
  let buf ← access (copyIn buf 0 bytes)
  pure (bytes.length, buf)

/-- The `readv` of `_db_readidx`. -/
def readvInto (locals : Locals) : MemM (Nat × Locals) := do
  let _ ← access (copyOut locals.asciiptr 0 ptrSz)
  let _ ← access (copyOut locals.asciilen 0 idxlenSz)
  let bytes : Bytes ← sys (.read .idx (ptrSz + idxlenSz))
  let asciiptr ← access (copyIn locals.asciiptr 0 (bytes.take ptrSz))
  let asciilen ← access (copyIn locals.asciilen 0 (bytes.drop ptrSz))
  pure (bytes.length, ⟨asciiptr, asciilen⟩)

/-- The chain pointer and the length, from the arrays. -/
def front (locals : Locals) : Option (Int × Nat) := do
  let asciiptr ← store locals.asciiptr ptrSz 0
  let ptrval ← atolIn asciiptr 0
  let asciilen ← store locals.asciilen idxlenSz 0
  let idxlen ← atolIn asciilen 0
  pure (ptrval, sizeT (cInt idxlen))

/-- The fields of the text in `idxbuf`; `error` is the complaint of an `err_dump`. -/
def parseIdxbuf (idxbuf : Bytes) (idxlen : Nat) : Option (Except Err IdxFields) := do
  let last ← idxbuf[idxlen - 1]?
  if last ≠ newline then pure (.error .readidxNewline)
  else
    let idxbuf ← store idxbuf (idxlen - 1) 0
    match ← strchrIn idxbuf 0 sep with
    | none => pure (.error .readidxFirstSep)
    | some first =>
      let idxbuf ← store idxbuf first 0
      let ptr1 := first + 1
      match ← strchrIn idxbuf ptr1 sep with
      | none => pure (.error .readidxSecondSep)
      | some second =>
        let idxbuf ← store idxbuf second 0
        let ptr2 := second + 1
        let third ← strchrIn idxbuf ptr2 sep
        if third ≠ none then pure (.error .readidxManySeps)
        else
          let datoff ← atolIn idxbuf ptr1
          let datlen ← atolIn idxbuf ptr2
          if datoff < 0 then pure (.error .readidxDatoff)
          else if sizeT datlen = 0 ∨ sizeT datlen > datlenMax then pure (.error .readidxDatlen)
          else pure (.ok { idxbuf, datoff, datlen := sizeT datlen })

/-- The rest of `_db_readidx`, once the text of the record is in `idxbuf`. -/
def dbReadidxText (count : Nat) : MemM Int := do
  let db ← get
  if count ≠ db.idxlen then dump .readidxRead
  else
    match ← access (parseIdxbuf db.idxbuf db.idxlen) with
    | .error error => dump error
    | .ok fields =>
      modify fun db => { db with idxbuf := fields.idxbuf, datoff := fields.datoff, datlen := fields.datlen }
      pure db.ptrval

def dbReadidxRecord (locals : Locals) : MemM Int := do
  let (ptrval, idxlen) ← access (front locals)
  modify fun db => { db with ptrval, idxlen }
  if idxlen < idxlenMin ∨ idxlen > idxlenMax then dump .readidxIdxlen
  else
    let db ← get
    let (count, idxbuf) ← readInto .idx db.idxbuf idxlen
    modify fun db => { db with idxbuf }
    dbReadidxText count

def dbReadidx (locals : Locals) (offset : Int) : MemM Int := do
  let idxoff ← lseek .idx offset (if offset = 0 then .cur else .set) .readidxLseek
  modify fun db => { db with idxoff }
  let (count, locals) ← readvInto locals
  if count = ptrSz + idxlenSz then dbReadidxRecord locals
  else if count = 0 ∧ offset = 0 then pure (-1)
  else dump .readidxReadv

/-- The rest of `_db_readdat`, once the text of the record is in `datbuf`. -/
def dbReaddatText (count : Nat) : MemM Unit := do
  let db ← get
  if count ≠ db.datlen then dump .readdatRead
  else
    let last ← access db.datbuf[db.datlen - 1]?
    if last ≠ newline then dump .readdatNewline
    else
      let datbuf ← access (store db.datbuf (db.datlen - 1) 0)
      modify fun db => { db with datbuf }

def dbReaddat : MemM Unit := do
  let db ← get
  let _ ← lseek .dat db.datoff .set .readdatLseek
  let (count, datbuf) ← readInto .dat db.datbuf db.datlen
  modify fun db => { db with datbuf }
  dbReaddatText count

/-- The loops with which `_db_dodelete` begins; `datlen - 1` is a `size_t`. -/
def blankBuffers : MemM Unit := do
  let db ← get
  let last := sizeT (db.datlen - 1 : Int)
  let datbuf ← access (fill db.datbuf 0 last space)
  let datbuf ← access (store datbuf last 0)
  let idxbuf ← access (fillWhile (· ≠ 0) space db.idxbuf)
  modify fun db => { db with datbuf, idxbuf }

/-! ## The text of a record -/

section Text

variable {text rest s : Bytes} {i first : Nat}

theorem drop_append_of_mem (rest : Bytes) (terminated : 0 ∈ s.drop i) :
    (s ++ rest).drop i = s.drop i ++ rest := by
  have inside : i ≤ s.length := by
    by_contra outside
    rw [List.drop_eq_nil_of_le (by omega)] at terminated
    cases terminated
  exact List.drop_append_of_le_length inside

theorem strchrIn_append (rest : Bytes) (terminated : 0 ∈ s.drop i) :
    strchrIn (s ++ rest) i sep = some ((strchr (s.drop i) sep).map (i + ·)) := by
  have split := drop_append_of_mem rest terminated
  rw [strchrIn_eq (by simp [split, terminated]) (by decide), split, strchr,
    cstr_append_of_mem terminated rest, ← strchr]

theorem atolIn_append (rest : Bytes) (terminated : 0 ∈ s.drop i) :
    atolIn (s ++ rest) i = some (atol (s.drop i)) := by
  have split := drop_append_of_mem rest terminated
  rw [atolIn_eq (by simp [split, terminated]), split, atol_append_of_mem terminated rest]

/-- The field that ends at the first separator, and what is left when a NUL stands there. -/
theorem strchr_split (found : strchr s sep = some first) (terminated : 0 ∈ s) :
    ∃ field after, s = field ++ sep :: after ∧ field.length = first ∧ NulFree field ∧ 0 ∈ after ∧
      s.set first 0 = field ++ 0 :: after := by
  obtain ⟨field, after, rfl, rfl, clean⟩ := strchr_eq_some found
  have behind : 0 ∈ after := by
    obtain early | late := List.mem_append.1 terminated
    · exact absurd early clean
    · exact (List.mem_cons.1 late).resolve_left (by decide)
  exact ⟨field, after, rfl, rfl, clean, behind, by simp⟩

theorem drop_field (key after : Bytes) : (key ++ 0 :: after).drop (key.length + 1) = after := by
  simp [← List.drop_drop]

theorem drop_fields (key off len : Bytes) :
    (key ++ 0 :: (off ++ 0 :: len)).drop (key.length + 1 + off.length + 1) = len := by
  simp [← List.drop_drop]

theorem set_second (key off len : Bytes) :
    (key ++ 0 :: (off ++ sep :: len)).set
    (key.length + 1 + off.length) 0 = key ++ 0 :: (off ++ 0 :: len) := by
  rw [List.set_append_right _ _ (by omega), show key.length + 1 + off.length - key.length =
    off.length + 1 by omega,
    List.set_cons_succ, List.set_append_right _ _ (Nat.le_refl _), Nat.sub_self, List.set_cons_zero]

/-- On the array, the checks are those on the text alone, and what is behind the text stays. -/
theorem parseIdxbuf_append (rest : Bytes) (nonempty : text ≠ []) :
    parseIdxbuf (text ++ rest) text.length =
    some ((Db.parseIdxbuf text).map fun fields =>
      { fields with idxbuf := fields.idxbuf ++ rest }) := by
  obtain ⟨line, last, rfl⟩ := List.eq_nil_or_concat text |>.resolve_left nonempty
  rw [List.concat_eq_append, parseIdxbuf, Db.parseIdxbuf]
  have width : (line ++ [last]).length - 1 = line.length := by simp
  have here : ((line ++ [last]) ++ rest)[line.length]? = some last := by simp
  rw [width, here, Option.bind_eq_bind, Option.bind_some, List.getLast?_concat]
  by_cases newline : last ≠ newline
  · simp [newline, Except.map]
  have stored : store ((line ++ [last]) ++ rest) line.length 0 = some ((line ++ [0]) ++ rest) := by
    rw [store_append (by simp)]
    simp
  -- every `strchr` and `atol` stops in the text, at the NUL that took the place of the newline
  have terminated : 0 ∈ (line ++ [0]).drop 0 := by simp
  have finds := strchrIn_append rest terminated
  rw [List.drop_zero] at finds terminated
  rw [if_neg newline, if_neg (by simpa using newline), stored, Option.bind_eq_bind,
    Option.bind_some, List.dropLast_concat, finds,
    Option.bind_eq_bind, Option.bind_some]
  simp only []
  cases found : strchr (line ++ [0]) sep with
  | none => rfl
  | some first =>
    obtain ⟨key, after, split, rfl, -, terminated, cut⟩ := strchr_split found terminated
    have stored : store ((line ++ [0]) ++ rest) key.length 0 =
        some ((key ++ 0 :: after) ++ rest) := by
      rw [store_append (by simp [split]), cut]
    have behind := drop_field key after
    have finds := strchrIn_append rest (behind.symm ▸ terminated)
    rw [behind] at finds
    simp only [Option.map_some, Nat.zero_add, stored, Option.bind_eq_bind, Option.bind_some, finds,
      cut, behind]
    cases found : strchr after sep with
    | none => rfl
    | some second =>
      obtain ⟨off, len, rfl, rfl, -, terminated, -⟩ := strchr_split found terminated
      have cut := set_second key off len
      have stored : store ((key ++ 0 :: (off ++ sep :: len)) ++ rest) (key.length + 1 +
          off.length) 0 =
          some ((key ++ 0 :: (off ++ 0 :: len)) ++ rest) := by
        rw [store_append (by simp; omega), cut]
      have offset := drop_field key (off ++ 0 :: len)
      have length := drop_fields key off len
      have finds := strchrIn_append rest (length.symm ▸ terminated)
      have inner : 0 ∈ (key ++ 0 :: (off ++ 0 :: len)).drop (key.length + 1) := by
        rw [offset]
        exact List.mem_append_right _ List.mem_cons_self
      have datoff := atolIn_append rest inner
      have datlen := atolIn_append rest (length.symm ▸ terminated)
      rw [length] at finds datlen
      rw [offset] at datoff
      simp only [Option.map_some, stored, Option.bind_some, finds, cut, offset, length, datoff,
        datlen, ne_eq,
        Option.map_eq_none_iff]
      split_ifs <;> rfl

/-- What `_db_readidx` returns with: lengths in their ranges, and three fields in `idxbuf`, each
with a NUL behind it. -/
structure Fields (idxbuf : Bytes) (idxlen : Nat) (datoff : Int) (datlen : Nat) : Prop where
  longEnough : idxlenMin ≤ idxlen
  shortEnough : idxlen ≤ idxlenMax
  inFile : 0 ≤ datoff
  nonempty : 1 ≤ datlen
  shortData : datlen ≤ datlenMax
  fields : ∃ key off len tail, idxbuf.take idxlen = key ++ 0 :: (off ++ 0 :: (len ++ 0 :: tail)) ∧
    NulFree key ∧ NulFree off ∧ NulFree len

theorem Fields.append {idxbuf : Bytes} {idxlen datlen : Nat} {datoff : Int}
    (fields : Fields idxbuf idxlen datoff datlen)
    (width : idxbuf.length = idxlen) (rest : Bytes) :
    Fields (idxbuf ++ rest) idxlen datoff datlen :=
  { fields with
    fields := by
      rw [List.take_append_of_le_length (by omega)]
      exact fields.fields }

theorem fields_of_parseIdxbuf {fields : IdxFields} (parsed : Db.parseIdxbuf text = .ok fields)
    (longEnough : idxlenMin ≤ text.length)
    (shortEnough : text.length ≤ idxlenMax) :
    fields.idxbuf.length = text.length ∧
      Fields fields.idxbuf text.length fields.datoff fields.datlen := by
  obtain ⟨line, last, rfl⟩ :=
    List.eq_nil_or_concat text |>.resolve_left (by rintro rfl; simp at longEnough)
  rw [List.concat_eq_append] at *
  rw [Db.parseIdxbuf, List.dropLast_concat] at parsed
  have terminated : 0 ∈ line ++ [0] := by simp
  simp only [] at parsed
  split_ifs at parsed with newline
  split at parsed
  case h_1 => cases parsed
  case h_2 first found =>
    obtain ⟨key, after, split, rfl, cleanKey, terminated, cut⟩ := strchr_split found terminated
    rw [cut, drop_field] at parsed
    split at parsed
    case h_1 => cases parsed
    case h_2 second found =>
      obtain ⟨off, later, rfl, rfl, cleanOff, terminated, -⟩ := strchr_split found terminated
      rw [set_second] at parsed
      split_ifs at parsed with third negative range
      cases parsed
      obtain ⟨len, tail, rfl, cleanLen⟩ := List.eq_append_cons_of_mem terminated
      have width := congrArg List.length split
      simp only [List.length_append, List.length_cons, List.length_nil] at width
      have range := not_or.1 range
      refine ⟨by simp; omega, longEnough, shortEnough, not_lt.1 negative, Nat.one_le_iff_ne_zero.2 range.1, not_lt.1 range.2, ?_⟩
      exact ⟨key, off, len, tail, List.take_of_length_le (by simp; omega), cleanKey,
        cleanOff, cleanLen⟩

end Text

/-! ## The calls -/

section Calls

variable {w : World Unit File} {db : DB} {locals : Locals}

theorem exec_access {result : Option α} {value : α} (inside : result = some value) (db : DB)
    (w : World Unit File) :
    Exec soloKernel (access result db) w (.returned (value, db)) w := by
  subst inside
  exact .ret _ _

theorem exec_readInto (w : World Unit File) (db : DB) (file : File) {buf : Bytes} {count : Nat}
    (room : count ≤ buf.length) :
    let bytes := readAt (w.bytes file) (w.pos () file) count
    Exec soloKernel (readInto file buf count db) w
      (.returned ((bytes.length, bytes ++ buf.drop bytes.length), db))
      (w.setPos () file (w.pos () file + bytes.length)) := by
  intro bytes
  have short : bytes.length ≤ buf.length := Nat.le_trans (readAt_length_le ..) room
  refine Exec.bind (exec_access (copyOut_eq (by omega)) _ _) (Exec.bind (.call rfl (.ret _ _)) ?_)
  exact Exec.bind (exec_access (copyIn_front short) _ _) (.ret _ _)

theorem exec_readvInto (w : World Unit File) (db : DB) (allocated : locals.Allocated) :
    let bytes := readAt (w.bytes .idx) (w.pos () .idx) (ptrSz + idxlenSz)
    let asciiptr := bytes.take ptrSz ++ locals.asciiptr.drop (bytes.take ptrSz).length
    let asciilen := bytes.drop ptrSz ++ locals.asciilen.drop (bytes.drop ptrSz).length
    Exec soloKernel (readvInto locals db) w (.returned ((bytes.length, ⟨asciiptr, asciilen⟩), db))
      (w.setPos () .idx (w.pos () .idx + bytes.length)) := by
  intro bytes asciiptr asciilen
  have whole : bytes.length ≤ ptrSz + idxlenSz := readAt_length_le ..
  have roomPtr : 0 + ptrSz ≤ locals.asciiptr.length := by rw [allocated.asciiptr]; omega
  have roomLen : 0 + idxlenSz ≤ locals.asciilen.length := by rw [allocated.asciilen]; omega
  have shortPtr : (bytes.take ptrSz).length ≤ locals.asciiptr.length := by
    rw [List.length_take]; omega
  have shortLen : (bytes.drop ptrSz).length ≤ locals.asciilen.length := by
    rw [List.length_drop]; omega
  refine Exec.bind (exec_access (copyOut_eq roomPtr) _ _)
    (Exec.bind (exec_access (copyOut_eq roomLen) _ _) ?_)
  refine Exec.bind (.call rfl (.ret _ _)) (Exec.bind (exec_access (copyIn_front shortPtr) _ _) ?_)
  exact Exec.bind (exec_access (copyIn_front shortLen) _ _) (.ret _ _)

/-- A field in an array with room for a NUL. -/
theorem store_field (field : Bytes) {behind : Bytes} {n : Nat} (width : field.length = n)
    (room : behind ≠ []) :
    ∃ array, store (field ++ behind) n 0 = some array ∧ atolIn array 0 = some (atol field) := by
  obtain ⟨b, behind, rfl⟩ := List.exists_cons_of_ne_nil room
  have terminated : 0 ∈ (field ++ [0]).drop 0 := by simp
  refine ⟨(field ++ [0]) ++ behind, ?_, ?_⟩
  · rw [store_eq (by simp; omega)]
    simp [← width]
  · rw [atolIn_append behind terminated, List.drop_zero, atol_append_zero]

theorem front_eq {iov behindPtr behindLen : Bytes} (whole : iov.length = ptrSz + idxlenSz)
    (roomPtr : behindPtr ≠ [])
    (roomLen : behindLen ≠ []) : front ⟨iov.take ptrSz ++ behindPtr, iov.drop ptrSz ++ behindLen⟩ =
      some (atol (iov.take ptrSz), sizeT (atoi (iov.drop ptrSz))) := by
  obtain ⟨asciiptr, storedPtr, readPtr⟩ :=
    store_field (iov.take ptrSz) (n := ptrSz) (by simp; omega) roomPtr
  obtain ⟨asciilen, storedLen, readLen⟩ :=
    store_field (iov.drop ptrSz) (n := idxlenSz) (by simp; omega) roomLen
  simp only [front, storedPtr, readPtr, storedLen, readLen, Option.bind_eq_bind, Option.bind_some]
  rfl

/-- How the call ends on the arrays when the file holds the record: what was in the buffer behind it
stays. -/
def ends (db : DB) (start : Nat) : Except Err IdxRecord → Outcome Stop (Int × DB)
  | .error error => .aborted (.dump error)
  | .ok r =>
    .returned (r.ptrval,
      { r.into start db with idxbuf := r.fields.idxbuf ++ db.idxbuf.drop r.idxlen })

theorem exec_dbReadidxText (w : World Unit File) (db : DB) {text rest : Bytes} {idxlen : Nat}
    (content : db.idxbuf = text ++ rest)
    (length : db.idxlen = idxlen) (nonempty : 1 ≤ idxlen) :
    Exec soloKernel (dbReadidxText text.length db) w
      (if text.length ≠ idxlen then .aborted (.dump .readidxRead)
      else match Db.parseIdxbuf text with
        | .error error => .aborted (.dump error)
        | .ok fields => .returned (db.ptrval, { db with
            idxbuf := fields.idxbuf ++ rest, datoff := fields.datoff, datlen :=
              fields.datlen })) w := by
  subst length
  refine Exec.bind (.ret _ _) ?_
  by_cases short : text.length ≠ db.idxlen
  · rw [if_pos short]
    exact Code.exec_if short (.abort _ _)
  have whole := not_not.1 short
  have parsed := parseIdxbuf_append rest (show text ≠ [] by rintro rfl; simp at whole; omega)
  rw [← content, whole] at parsed
  rw [if_neg short]
  refine Code.exec_else short (Exec.bind (exec_access parsed _ _) ?_)
  cases Db.parseIdxbuf text with
  | error error => exact .abort _ _
  | ok fields => exact .ret _ _

theorem exec_dbReadidxRecord {start : Nat} {iov behindPtr behindLen : Bytes}
    (allocated : Allocated db)
    (isIov : iov = readAt (w.bytes .idx) start (ptrSz + idxlenSz))
    (whole : iov.length = ptrSz + idxlenSz)
    (pos : w.pos () .idx = start + (ptrSz + idxlenSz)) (roomPtr : behindPtr ≠ [])
    (roomLen : behindLen ≠ []) :
    ∃ w', Exec soloKernel
      (dbReadidxRecord ⟨iov.take ptrSz ++ behindPtr,
      iov.drop ptrSz ++ behindLen⟩ { db with idxoff := start })
      w (ends db start (recordAt (w.bytes .idx) start)) w' := by
  subst isIov
  rw [recordAt_of_front whole]
  set iov := readAt (w.bytes .idx) start (ptrSz + idxlenSz)
  set idxlen := sizeT (atoi (iov.drop ptrSz))
  have fronts := exec_access (front_eq whole roomPtr roomLen) { db with idxoff := start } w
  by_cases range : idxlen < idxlenMin ∨ idxlen > idxlenMax
  · rw [if_pos range]
    exact ⟨w, Exec.bind fronts (Code.exec_if range (.abort _ _))⟩
  have bounds := not_or.1 range
  let db₁ := { db with idxoff := start, ptrval := atol (iov.take ptrSz), idxlen }
  -- the length has been checked, so there is room for the text
  have reads := exec_readInto w db₁ .idx
    (show idxlen ≤ db.idxbuf.length by rw [allocated.idxbuf]; omega)
  simp only [pos] at reads
  set text := readAt (w.bytes .idx) (start + (ptrSz + idxlenSz)) idxlen
  have longEnough : 6 ≤ idxlen := not_lt.1 bounds.1
  let w₁ := w.setPos () .idx (start + (ptrSz + idxlenSz) + text.length)
  have rest := exec_dbReadidxText w₁ { db₁ with idxbuf := text ++ db.idxbuf.drop text.length }
    rfl rfl (show 1 ≤ idxlen by omega)
  refine ⟨w₁, Exec.bind fronts (Code.exec_else range ?_)⟩
  rw [if_neg range]
  by_cases short : text.length ≠ idxlen
  · rw [if_pos short] at rest ⊢
    exact Exec.bind (.ret _ _) (Exec.bind reads rest)
  · rw [if_neg short] at rest ⊢
    cases parsed : Db.parseIdxbuf text with
    | error error =>
      rw [parsed] at rest
      exact Exec.bind (.ret _ _) (Exec.bind reads rest)
    | ok fields =>
      rw [parsed] at rest
      have last : ends db start (.ok ⟨atol (iov.take ptrSz), idxlen, fields⟩) =
          .returned (atol (iov.take ptrSz), { db₁ with
          idxbuf := fields.idxbuf ++ db.idxbuf.drop text.length, datoff := fields.datoff, datlen :=
            fields.datlen }) := by
        rw [not_not.1 short]
        rfl
      rw [last]
      exact Exec.bind (.ret _ _) (Exec.bind reads rest)

theorem exec_lseek (db : DB) {file : File} {offset : Int} {whence : Whence} (error : Err) {n : Nat}
    (target : w.target () file offset whence = n) :
    Exec soloKernel (lseek file offset whence error db) w
      (.returned (n, db)) (w.setPos () file n) :=
  .call (soloKernel_lseek target) (.ret _ _)

theorem exec_lseek_negative (db : DB) {file : File} {offset : Int} {whence : Whence} (error : Err)
    (target : w.target () file offset whence < 0) :
    Exec soloKernel (lseek file offset whence error db) w (.aborted (.dump error)) w :=
  .call (soloKernel_lseek_negative target) (.abort _ _)

/-- The call of `_db_readidx` at the offset `start` of the file. -/
theorem exec_dbReadidx {offset : Int} {start : Nat} (isolated : locals.Allocated)
    (allocated : Allocated db)
    (target : w.target () .idx offset (if offset = 0 then .cur else .set) = start) :
    ∃ w', Exec soloKernel (dbReadidx locals offset db) w
      (if (readAt (w.bytes .idx) start (ptrSz + idxlenSz)).length = 0 ∧
        offset = 0 then .returned (-1, { db with idxoff := start })
      else ends db start (recordAt (w.bytes .idx) start)) w' := by
  have seeks := exec_lseek db .readidxLseek target
  have reads := exec_readvInto (w.setPos () .idx start) { db with idxoff := start } isolated
  simp only [setPos_pos_self, show (w.setPos () .idx start).bytes = w.bytes from rfl] at reads
  set iov := readAt (w.bytes .idx) start (ptrSz + idxlenSz) with isIov
  let w₁ := (w.setPos () .idx start).setPos () .idx (start + iov.length)
  by_cases whole : iov.length = ptrSz + idxlenSz
  · have roomPtr : locals.asciiptr.drop (iov.take ptrSz).length ≠ [] := by
      simp only [ne_eq, List.drop_eq_nil_iff, List.length_take, isolated.asciiptr]
      omega
    have roomLen : locals.asciilen.drop (iov.drop ptrSz).length ≠ [] := by
      simp only [ne_eq, List.drop_eq_nil_iff, List.length_drop, isolated.asciilen]
      omega
    have pos : w₁.pos () .idx = start + (ptrSz + idxlenSz) := by rw [setPos_pos_self, whole]
    obtain ⟨w', rest⟩ := exec_dbReadidxRecord (w := w₁) allocated isIov whole pos roomPtr roomLen
    refine ⟨w', Exec.bind seeks (Exec.bind (.ret _ _) (Exec.bind reads (Code.exec_if whole ?_)))⟩
    have more : ¬(iov.length = 0 ∧ offset = 0) := by
      intro finished
      rw [whole] at finished
      cases finished.1
    rw [if_neg more]
    exact rest
  · refine ⟨w₁, Exec.bind seeks (Exec.bind (.ret _ _) (Exec.bind reads (Code.exec_else whole ?_)))⟩
    by_cases finished : iov.length = 0 ∧ offset = 0
    · rw [if_pos finished, if_pos finished]
      exact .ret _ _
    · rw [if_neg finished, if_neg finished, recordAt, if_pos whole]
      exact .abort _ _

/-- What `_db_readidx` returns with, from any file, fits the buffers. -/
theorem fields_of_recordAt {start : Nat} {r : IdxRecord}
    (found : recordAt (w.bytes .idx) start = .ok r) :
    r.fields.idxbuf.length = r.idxlen ∧
      Fields r.fields.idxbuf r.idxlen r.fields.datoff r.fields.datlen := by
  have checked := recordAt_ok found
  have fields := fields_of_parseIdxbuf checked.fields
    (by rw [checked.text]; exact checked.longEnough)
    (by rw [checked.text]; exact checked.shortEnough)
  rwa [checked.text] at fields

/-- From this state the code makes no access outside an array, whatever the files hold then. -/
def Inside (m : MemM α) (db : DB) : Prop :=
  ∀ w outcome w', Exec soloKernel (m db) w outcome w' → outcome ≠ .aborted .outside

theorem inside_of_exec {m : MemM α}
    (runs : ∀ w, ∃ outcome w', Exec soloKernel (m db) w outcome w' ∧ outcome ≠ .aborted .outside) :
    Inside m db := by
  intro w outcome w' given
  obtain ⟨outcome', w'', found, inside⟩ := runs w
  rw [(given.deterministic found).1]
  exact inside

/-- The loops write what the model without the arrays writes, and nothing behind it. -/
theorem exec_blankBuffers (w : World Unit File) (allocated : Allocated db)
    (nonempty : 1 ≤ db.datlen) (short : db.datlen ≤ datlenMax)
    (terminated : 0 ∈ db.idxbuf) : Exec soloKernel (blankBuffers db) w (.returned ((), { db with
      datbuf := List.replicate (db.datlen - 1) space ++ 0 :: db.datbuf.drop db.datlen
      idxbuf := List.replicate (strlen db.idxbuf) space ++ db.idxbuf.drop (strlen db.idxbuf) }))
        w := by
  have limit : db.datlen ≤ 1024 := short
  -- `datlen - 1` does not wrap, since no data record is empty
  have last : sizeT (db.datlen - 1 : Int) = db.datlen - 1 := by
    rw [← Nat.cast_one, ← Nat.cast_sub nonempty, sizeT_natCast (by omega)]
  have room := allocated.datbuf
  have blanks : fill db.datbuf 0 (sizeT (db.datlen - 1 : Int)) space =
      some (List.replicate (db.datlen - 1) space ++ db.datbuf.drop (db.datlen - 1)) := by
    rw [last, fill_eq _ (by omega), List.take_zero, List.nil_append, Nat.zero_add]
  have ends : store (List.replicate (db.datlen - 1) space ++ db.datbuf.drop (db.datlen - 1))
      (sizeT (db.datlen - 1 : Int)) 0 =
      some (List.replicate (db.datlen - 1) space ++ 0 :: db.datbuf.drop db.datlen) := by
    rw [last, store_eq (by simp; omega), List.set_append_right _ _ (by simp), List.length_replicate,
      Nat.sub_self,
      List.drop_eq_getElem_cons (by omega), List.set_cons_zero, Nat.sub_add_cancel nonempty]
  have key : fillWhile (· ≠ 0) space db.idxbuf =
      some (List.replicate (strlen db.idxbuf) space ++ db.idxbuf.drop (strlen db.idxbuf)) := by
    have behind : db.idxbuf.drop (strlen db.idxbuf) = db.idxbuf.dropWhile (· ≠ 0) := by
      have split := List.takeWhile_append_dropWhile (p := fun b : UInt8 =>
        decide (b ≠ 0)) (l := db.idxbuf)
      simpa [strlen, cstr] using drop_behind (i := 0) split.symm
    rw [fillWhile_eq _ ⟨0, terminated, by simp⟩, behind, strlen, cstr]
  refine Exec.bind (.ret _ _)
    (Exec.bind (exec_access blanks _ _) (Exec.bind (exec_access ends _ _) ?_))
  exact Exec.bind (exec_access key _ _) (.ret _ _)

/-- The data record comes whole into its buffer, or the call ends with a complaint. -/
theorem exec_dbReaddat (w : World Unit File) (allocated : Allocated db) (nonempty : 1 ≤ db.datlen)
    (short : db.datlen ≤ datlenMax) :
    ∃ outcome w', Exec soloKernel (dbReaddat db) w outcome w' ∧
      ((∃ error, outcome = .aborted (.dump error)) ∨
      ∃ datbuf, outcome = .returned ((), { db with datbuf }) ∧
        datbuf.length = db.datbuf.length) := by
  have room := allocated.datbuf
  by_cases negative : w.target () .dat db.datoff .set < 0
  · exact ⟨_, _, Exec.bind (.ret _ _) (Exec.bind_aborted (exec_lseek_negative db _ negative)),
      .inl ⟨_, rfl⟩⟩
  obtain ⟨start, target⟩ := Int.eq_ofNat_of_zero_le (not_lt.1 negative)
  have seeks := exec_lseek db .readdatLseek target
  have reads := exec_readInto (w.setPos () .dat start) db .dat
    (show db.datlen ≤ db.datbuf.length by omega)
  simp only [setPos_pos_self, show (w.setPos () .dat start).bytes = w.bytes from rfl] at reads
  set bytes := readAt (w.bytes .dat) start db.datlen
  let datbuf := bytes ++ db.datbuf.drop bytes.length
  have most : bytes.length ≤ db.datlen := readAt_length_le ..
  have width : datbuf.length = db.datbuf.length := by simp [datbuf]; omega
  let w₁ := (w.setPos () .dat start).setPos () .dat (start + bytes.length)
  have go {outcome : Outcome Stop (Unit × DB)} {w' : World Unit File}
      (rest : Exec soloKernel (dbReaddatText bytes.length { db with datbuf }) w₁ outcome w') :
      Exec soloKernel (dbReaddat db) w outcome w' :=
    Exec.bind (.ret _ _) (Exec.bind seeks (Exec.bind reads (Exec.bind (.ret _ _) rest)))
  by_cases whole : bytes.length ≠ db.datlen
  · refine ⟨_, w₁, go (Exec.bind (.ret _ _) ?_), .inl ⟨.readdatRead, rfl⟩⟩
    exact Code.exec_if whole (.abort _ _)
  -- the newline is looked for in the array, at a place that was read
  have inside : db.datlen - 1 < datbuf.length := by omega
  by_cases last : datbuf[db.datlen - 1] ≠ newline
  · refine ⟨_, w₁, go (Exec.bind (.ret _ _) ?_), .inl ⟨.readdatNewline, rfl⟩⟩
    refine Code.exec_else whole (Exec.bind (exec_access (List.getElem?_eq_getElem inside) _ _) ?_)
    exact Code.exec_if last (.abort _ _)
  · refine ⟨_, w₁, go (Exec.bind (.ret _ _) ?_),
      .inr ⟨datbuf.set (db.datlen - 1) 0, rfl, by rw [List.length_set, width]⟩⟩
    refine Code.exec_else whole (Exec.bind (exec_access (List.getElem?_eq_getElem inside) _ _) ?_)
    exact Code.exec_else last (Exec.bind (exec_access (store_eq inside 0) _ _) (.ret _ _))

/-- What a call leaves on the arrays when the model without them leaves the outcome. -/
def inMemory (db : DB) : Outcome Err (Int × DB) → Outcome Stop (Int × DB)
  | .returned (ptrval, db') =>
    .returned (ptrval, { db' with idxbuf := db'.idxbuf ++ db.idxbuf.drop db'.idxbuf.length })
  | .aborted error => .aborted (.dump error)

/-- The function on its arrays does what the model without them does. -/
theorem exec_dbReadidx_inMemory {offset : Int} {outcome : Outcome Err (Int × DB)}
    {w₁ : World Unit File} (isolated : locals.Allocated)
    (allocated : Allocated db) (runs : Exec soloKernel (Db.dbReadidx offset db) w outcome w₁) :
    ∃ w', Exec soloKernel (dbReadidx locals offset db) w (inMemory db outcome) w' := by
  by_cases negative : w.target () .idx offset (if offset = 0 then .cur else .set) < 0
  · have refused : Exec soloKernel (Db.dbReadidx offset db) w (.aborted .readidxLseek) w :=
      Exec.bind_aborted (.call (soloKernel_lseek_negative negative) (.abort _ _))
    obtain ⟨rfl, -⟩ := runs.deterministic refused
    exact ⟨w, Exec.bind_aborted (exec_lseek_negative db _ negative)⟩
  obtain ⟨start, target⟩ := Int.eq_ofNat_of_zero_le (not_lt.1 negative)
  obtain ⟨w', onArrays⟩ := exec_dbReadidx isolated allocated target
  obtain ⟨outcome', w₂, runs', ends⟩ := exec_readidx db target
  obtain ⟨rfl, rfl⟩ := runs.deterministic runs'
  refine ⟨w', ?_⟩
  cases ends with
  | record found bytes pos =>
    have more : ¬((readAt (w.bytes .idx) start (ptrSz + idxlenSz)).length = 0 ∧ offset = 0) := by
      intro finished
      rw [(recordAt_ok found).front] at finished
      cases finished.1
    rw [if_neg more, found] at onArrays
    simpa [inMemory, InMemory.ends, IdxRecord.into, (fields_of_recordAt found).1] using onArrays
  | finish ends current bytes =>
    have finished : (readAt (w.bytes .idx) start (ptrSz + idxlenSz)).length = 0 ∧ offset = 0 := by
      rw [readAt, List.drop_eq_nil_of_le ends]
      exact ⟨rfl, current⟩
    rw [if_pos finished] at onArrays
    simpa [inMemory] using onArrays
  | stops rejected more =>
    rw [if_neg more, rejected] at onArrays
    exact onArrays

theorem zero_mem_idxbuf {idxbuf : Bytes} {idxlen datlen : Nat} {datoff : Int}
    (fields : Fields idxbuf idxlen datoff datlen) : 0 ∈ idxbuf := by
  obtain ⟨key, off, len, tail, split, -⟩ := fields.fields
  exact List.mem_of_mem_take (split ▸ List.mem_append_right _ List.mem_cons_self)

theorem inside_blankBuffers (allocated : Allocated db)
    (fields : Fields db.idxbuf db.idxlen db.datoff db.datlen) :
    Inside blankBuffers db := by
  refine inside_of_exec fun w =>
    ⟨_, w, exec_blankBuffers w allocated fields.nonempty fields.shortData
    (zero_mem_idxbuf fields), ?_⟩
  simp

theorem inside_dbReaddat (allocated : Allocated db)
    (fields : Fields db.idxbuf db.idxlen db.datoff db.datlen) :
    Inside (do dbReaddat; blankBuffers) db := by
  refine inside_of_exec fun w => ?_
  obtain ⟨outcome, w', runs, ⟨error, rfl⟩ | ⟨datbuf, rfl, width⟩⟩ :=
    exec_dbReaddat w allocated fields.nonempty fields.shortData
  · exact ⟨_, w', Exec.bind_aborted runs, by simp⟩
  · have allocated' : Allocated { db with datbuf } :=
      ⟨allocated.idxbuf, width.trans allocated.datbuf⟩
    exact ⟨_, w', Exec.bind runs (exec_blankBuffers w' allocated' fields.nonempty fields.shortData
      (zero_mem_idxbuf fields)), by simp⟩

/-- Whatever the files hold and wherever it reads, `_db_readidx` complains, reports the end of the
file, or returns with fields with which the functions that follow stay inside the buffers.  It does
not leave an array itself. -/
theorem readidx_bounds (isolated : locals.Allocated) (allocated : Allocated db)
    (w : World Unit File) (offset : Int) :
    ∃ outcome w', Exec soloKernel (dbReadidx locals offset db) w outcome w' ∧
      ((∃ error, outcome = .aborted (.dump error)) ∨
        (∃ db', outcome = .returned (-1, db') ∧ offset = 0 ∧
          (w.bytes .idx).length ≤ w.pos () .idx) ∨
        ∃ ptrval db', outcome = .returned (ptrval, db') ∧
          Fields db'.idxbuf db'.idxlen db'.datoff db'.datlen ∧
          Inside blankBuffers db' ∧ Inside (do dbReaddat; blankBuffers) db') := by
  by_cases negative : w.target () .idx offset (if offset = 0 then .cur else .set) < 0
  · exact ⟨_, w, Exec.bind_aborted (exec_lseek_negative db _ negative), .inl ⟨_, rfl⟩⟩
  obtain ⟨start, target⟩ := Int.eq_ofNat_of_zero_le (not_lt.1 negative)
  obtain ⟨w', runs⟩ := exec_dbReadidx isolated allocated target
  refine ⟨_, w', runs, ?_⟩
  by_cases finished : (readAt (w.bytes .idx) start (ptrSz + idxlenSz)).length = 0 ∧ offset = 0
  · rw [if_pos finished]
    obtain ⟨empty, rfl⟩ := finished
    have here : w.pos () .idx = start := by simpa [World.target] using target
    rw [readAt, List.length_take, List.length_drop] at empty
    simp only [ptrSz, idxlenSz] at empty
    exact .inr (.inl ⟨_, rfl, rfl, by omega⟩)
  rw [if_neg finished]
  cases found : recordAt (w.bytes .idx) start with
  | error error => exact .inl ⟨error, rfl⟩
  | ok r =>
    obtain ⟨width, fields⟩ := fields_of_recordAt found
    let db' : DB := { r.into start db with idxbuf := r.fields.idxbuf ++ db.idxbuf.drop r.idxlen }
    have fields' : Fields db'.idxbuf db'.idxlen db'.datoff db'.datlen := fields.append width _
    have shortEnough := fields.shortEnough
    have whole : db'.idxbuf.length = idxlenMax + 2 := by
      have room := allocated.idxbuf
      rw [List.length_append, List.length_drop, width]
      omega
    have allocated' : Allocated db' := ⟨whole, allocated.datbuf⟩
    exact .inr (.inr ⟨r.ptrval, db', rfl, fields', inside_blankBuffers allocated' fields',
      inside_dbReaddat allocated' fields'⟩)

/-- An index record with something else behind the number of every field, the last of a file whose
data record is not there. -/
def junkFields : World Unit File :=
  { World.absent with
    bytes := fun file => if file = .idx then ascii "  12x99+11-a: 6b:+2 z" ++ [newline] else ascii "0123456"
    present := fun _ => true }

theorem readidx_bounds_junk : ∃ db w',
    Exec soloKernel (dbReadidx ⟨List.replicate 8 0, List.replicate 5 0⟩ 0
      { idxbuf := List.replicate 1026 0, datbuf := List.replicate 1026 0 }) junkFields
        (.returned (12, db)) w' ∧
      db.idxlen = 11 ∧ db.datoff = 6 ∧ db.datlen = 2 ∧
        Fields db.idxbuf db.idxlen db.datoff db.datlen ∧
      Inside blankBuffers db ∧ Inside (do dbReaddat; blankBuffers) db := by
  have ran : ((dbReadidx ⟨List.replicate 8 0, List.replicate 5 0⟩ 0).returns soloKernel 100
      ({ idxbuf := List.replicate 1026 0, datbuf := List.replicate 1026 0 }, junkFields)).map
          (fun (ptrval, db, _) =>
        decide (ptrval = 12 ∧ db.idxlen = 11 ∧ db.datoff = 6 ∧ db.datlen = 2)) = some true := by
    decide +kernel
  obtain ⟨⟨ptrval, db, w'⟩, returned, checks⟩ := Option.map_eq_some_iff.1 ran
  obtain ⟨rfl, idxlen, datoff, datlen⟩ := of_decide_eq_true checks
  have runs := Code.returns_sound returned
  have allocated : Allocated { idxbuf := List.replicate 1026 0, datbuf := List.replicate 1026 0 } :=
    ⟨List.length_replicate, List.length_replicate⟩
  have isolated : Locals.Allocated ⟨List.replicate 8 0, List.replicate 5 0⟩ :=
    ⟨List.length_replicate, List.length_replicate⟩
  obtain ⟨_, _, runs', ends⟩ := readidx_bounds isolated allocated junkFields 0
  obtain ⟨rfl, -⟩ := runs'.deterministic runs
  obtain ⟨_, stops⟩ | ⟨_, finish, -⟩ | ⟨_, _, record, fields, blanks, reads⟩ := ends
  · cases stops
  · cases finish
  · cases record
    exact ⟨db, w', runs, idxlen, datoff, datlen, fields, blanks, reads⟩

end Calls

end Apue.Db.InMemory
