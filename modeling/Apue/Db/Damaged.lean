import Apue.Db.Solo

/-! # Scans of a damaged index file

`db_nextrec` on an index file of any content, from any offset.  Every record it passes over takes
the file offset on, so it ends: at a record that `_db_readidx` rejects, at the end of the file, or
at a record that is not blank.  But the value that says so is the chain pointer of the record, which
the file may give as a negative number, and a negative value means the end of the file.
-/

namespace Apue.Db

open Apue.Base St

variable {w w' : World Unit File} {db db' : DB} {idx : Bytes} {pos : Nat}

/-! ## One record of any file -/

structure IdxRecord where
  ptrval : Int
  idxlen : Nat
  fields : IdxFields

/-- The index record at an offset of the file, or what `_db_readidx` says is wrong with it. -/
def recordAt (idx : Bytes) (pos : Nat) : Except Err IdxRecord :=
  let iov := readAt idx pos (ptrSz + idxlenSz)
  if iov.length ≠ ptrSz + idxlenSz then .error .readidxReadv
  else
    let ptrval := atol (iov.take ptrSz)
    let idxlen := sizeT (atoi (iov.drop ptrSz))
    if idxlen < idxlenMin ∨ idxlen > idxlenMax then .error .readidxIdxlen
    else
      let idxbuf := readAt idx (pos + (ptrSz + idxlenSz)) idxlen
      if idxbuf.length ≠ idxlen then .error .readidxRead
      else
        match parseIdxbuf idxbuf with
        | .error error => .error error
        | .ok fields => .ok ⟨ptrval, idxlen, fields⟩

theorem recordAt_of_front (front : (readAt idx pos (ptrSz + idxlenSz)).length = ptrSz + idxlenSz) :
    recordAt idx pos =
    let idxlen := sizeT (atoi ((readAt idx pos (ptrSz + idxlenSz)).drop ptrSz))
    if idxlen < idxlenMin ∨ idxlen > idxlenMax then .error .readidxIdxlen
    else
      let idxbuf := readAt idx (pos + (ptrSz + idxlenSz)) idxlen
      if idxbuf.length ≠ idxlen then .error .readidxRead
      else
        match parseIdxbuf idxbuf with
        | .error error => .error error
        | .ok fields => .ok ⟨atol ((readAt idx pos (ptrSz + idxlenSz)).take ptrSz), idxlen, fields⟩ := by
  rw [recordAt, if_neg (not_not_intro front)]

/-- What `_db_readidx` has checked of a record that it returns. -/
structure Checked (idx : Bytes) (pos : Nat) (r : IdxRecord) : Prop where
  front : (readAt idx pos (ptrSz + idxlenSz)).length = ptrSz + idxlenSz
  ptrval : r.ptrval = atol ((readAt idx pos (ptrSz + idxlenSz)).take ptrSz)
  longEnough : idxlenMin ≤ r.idxlen
  shortEnough : r.idxlen ≤ idxlenMax
  text : (readAt idx (pos + (ptrSz + idxlenSz)) r.idxlen).length = r.idxlen
  fields : parseIdxbuf (readAt idx (pos + (ptrSz + idxlenSz)) r.idxlen) = .ok r.fields

theorem recordAt_ok {r : IdxRecord} (found : recordAt idx pos = .ok r) : Checked idx pos r := by
  simp only [recordAt] at found
  split_ifs at found with front length text
  split at found
  case h_1 => cases found
  case h_2 fields parsed =>
    cases found
    have bounds := not_or.1 length
    exact ⟨not_not.1 front, rfl, not_lt.1 bounds.1, not_lt.1 bounds.2, not_not.1 text, parsed⟩

/-- Where the next record starts. -/
def IdxRecord.behind (r : IdxRecord) (pos : Nat) : Nat := pos + (ptrSz + idxlenSz) + r.idxlen

/-- What `_db_readidx` leaves in the `DB` structure. -/
def IdxRecord.into (r : IdxRecord) (pos : Nat) (db : DB) : DB :=
  { db with
    idxoff := pos, ptrval := r.ptrval, idxlen := r.idxlen
    idxbuf := r.fields.idxbuf, datoff := r.fields.datoff, datlen := r.fields.datlen }

theorem readAt_length_le (file : Bytes) (offset count : Nat) :
    (readAt file offset count).length ≤ count := by simp [readAt]

theorem exec_lseek (db : DB) {file : File} {offset : Int} {whence : Whence} (error : Err) {n : Nat}
    (target : w.target () file offset whence = n) :
    Exec soloKernel (lseek file offset whence error db) w
      (.returned (n, db)) (w.setPos () file n) :=
  .call (soloKernel_lseek target) (.ret _ _)

theorem exec_read (w : World Unit File) (db : DB) (file : File) (count : Nat) :
    Exec soloKernel (read file count db) w
      (.returned (readAt (w.bytes file) (w.pos () file) count, db))
      (w.setPos () file (w.pos () file + (readAt (w.bytes file) (w.pos () file) count).length)) :=
  .call rfl (.ret _ _)

theorem setPos_pos_self (w : World Unit File) (file : File) (offset : Nat) :
    (w.setPos () file offset).pos () file = offset := by
  simp [World.setPos_pos]

/-- How a call ends that begins at `start`, where a record or something else stands. -/
inductive ReadsIdx (w : World Unit File) (db : DB) (offset : Int) (start : Nat) :
    Outcome Err (Int × DB) → World Unit File → Prop where
  | record {r : IdxRecord} {w' : World Unit File} (found : recordAt (w.bytes .idx) start = .ok r)
      (bytes : w'.bytes = w.bytes) (pos : w'.pos () .idx = r.behind start) :
      ReadsIdx w db offset start (.returned (r.ptrval, r.into start db)) w'
  | finish {w' : World Unit File} (ends : (w.bytes .idx).length ≤ start) (current : offset = 0) (bytes : w'.bytes = w.bytes) :
      ReadsIdx w db offset start (.returned (-1, { db with idxoff := start })) w'
  | stops {error : Err} {w' : World Unit File} (rejected : recordAt (w.bytes .idx) start = .error error)
      (more : ¬((readAt (w.bytes .idx) start (ptrSz + idxlenSz)).length = 0 ∧ offset = 0)) :
      ReadsIdx w db offset start (.aborted error) w'

/-- The rest of `_db_readidx`, behind the pointer and the length. -/
theorem exec_readidxRecord (w w₀ : World Unit File) (db : DB) (offset : Int) {start : Nat}
    (bytes : w.bytes = w₀.bytes)
    (pos : w.pos () .idx = start + (ptrSz + idxlenSz))
    (front : (readAt (w₀.bytes .idx) start (ptrSz + idxlenSz)).length = ptrSz + idxlenSz) :
    ∃ outcome w', Exec soloKernel
      (dbReadidxRecord (readAt (w₀.bytes .idx) start (ptrSz + idxlenSz))
        { db with idxoff := start }) w outcome w' ∧
        ReadsIdx w₀ db offset start outcome w' := by
  set iov := readAt (w₀.bytes .idx) start (ptrSz + idxlenSz) with isIov
  set idxlen := sizeT (atoi (iov.drop ptrSz)) with isIdxlen
  have found := recordAt_of_front front
  simp only [← isIov, ← isIdxlen] at found
  have more : ¬(iov.length = 0 ∧ offset = 0) := by
    intro finished
    rw [front] at finished
    cases finished.1
  -- the checks of the record are those of `recordAt`
  by_cases length : idxlen < idxlenMin ∨ idxlen > idxlenMax
  · rw [if_pos length] at found
    exact ⟨.aborted .readidxIdxlen, w, Code.exec_if length (.abort _ _), .stops found more⟩
  rw [if_neg length] at found
  have text := exec_read w { db with idxoff := start, ptrval := atol (iov.take ptrSz), idxlen }
    .idx idxlen
  rw [pos, bytes] at text
  set idxbuf := readAt (w₀.bytes .idx) (start + (ptrSz + idxlenSz)) idxlen with isIdxbuf
  let w₁ := w.setPos () .idx (start + (ptrSz + idxlenSz) + idxbuf.length)
  by_cases short : idxbuf.length ≠ idxlen
  · rw [if_pos short] at found
    exact ⟨.aborted .readidxRead, w₁,
      Code.exec_else length (Exec.bind text (Code.exec_if short (.abort _ _))), .stops found more⟩
  rw [if_neg short] at found
  cases parsed : parseIdxbuf idxbuf with
  | error error =>
    rw [parsed] at found
    refine ⟨.aborted error, w₁, ?_, .stops found more⟩
    refine Code.exec_else length (Exec.bind text (Code.exec_else short ?_))
    rw [parsed]
    exact .abort _ _
  | ok fields =>
    rw [parsed] at found
    have behind : w₁.pos () .idx = (IdxRecord.mk (atol (iov.take ptrSz)) idxlen fields).behind
        start := by
      rw [setPos_pos_self, not_not.1 short]
      rfl
    refine ⟨_, w₁, ?_, .record found bytes behind⟩
    refine Code.exec_else length (Exec.bind text (Code.exec_else short ?_))
    rw [parsed]
    exact .ret _ _

/-- Every call of `_db_readidx` ends, as the file says. -/
theorem exec_readidx (db : DB) {offset : Int} {start : Nat}
    (target : w.target () .idx offset (if offset = 0 then .cur else .set) = start) :
    ∃ outcome w', Exec soloKernel (dbReadidx offset db) w outcome w' ∧
      ReadsIdx w db offset start outcome w' := by
  have seeks := exec_lseek db .readidxLseek target
  have reads := exec_read (w.setPos () .idx start) { db with idxoff := start } .idx
    (ptrSz + idxlenSz)
  rw [setPos_pos_self] at reads
  change Exec soloKernel _ _
    (.returned (readAt (w.bytes .idx) start (ptrSz + idxlenSz), _)) _ at reads
  set iov := readAt (w.bytes .idx) start (ptrSz + idxlenSz) with isIov
  let w₁ := (w.setPos () .idx start).setPos () .idx (start + iov.length)
  -- what is left when the front of the record has been read
  have go {outcome : Outcome Err (Int × DB)} {w' : World Unit File}
      (rest : Exec soloKernel ((if iov.length = ptrSz + idxlenSz then dbReadidxRecord iov
        else if iov.length = 0 ∧ offset = 0 then pure (-1) else Code.abort .readidxReadv :
          DbM Int) { db with idxoff := start })
        w₁ outcome w') : Exec soloKernel (dbReadidx offset db) w outcome w' :=
    Exec.bind seeks (Exec.bind (.ret _ _) (Exec.bind reads rest))
  by_cases front : iov.length = ptrSz + idxlenSz
  · have pos : w₁.pos () .idx = start + (ptrSz + idxlenSz) := by rw [setPos_pos_self, front]
    obtain ⟨outcome, w', rest, ends⟩ := exec_readidxRecord w₁ w db offset rfl pos front
    refine ⟨outcome, w', go ?_, ends⟩
    rw [if_pos front]
    exact rest
  · by_cases ends : iov.length = 0 ∧ offset = 0
    · have behind : (w.bytes .idx).length ≤ start := by
        have empty := ends.1
        rw [isIov, readAt, List.length_take, List.length_drop] at empty
        simp only [ptrSz, idxlenSz] at empty
        omega
      refine ⟨.returned (-1, { db with idxoff := start }), w₁, go ?_, .finish behind ends.2 rfl⟩
      rw [if_neg front, if_pos ends]
      exact .ret _ _
    · have rejected : recordAt (w.bytes .idx) start = .error .readidxReadv := by
        rw [recordAt, ← isIov, if_pos front]
      refine ⟨.aborted .readidxReadv, w₁, go ?_, .stops rejected ends⟩
      rw [if_neg front, if_neg ends]
      exact .abort _ _

/-! ## The records passed over -/

/-- The record at the offset is one that `db_nextrec` takes for deleted and passes over. -/
structure Passed (idx : Bytes) (pos : Nat) (r : IdxRecord) : Prop where
  found : recordAt idx pos = .ok r
  pointer : 0 ≤ r.ptrval
  blank : isBlank (cstr r.fields.idxbuf) = true

/-- From one offset to the other there are only records that are passed over. -/
inductive PassesTo (idx : Bytes) : Nat → Nat → Prop where
  | here (pos : Nat) : PassesTo idx pos pos
  | record {pos q : Nat} {r : IdxRecord} (passed : Passed idx pos r) (rest : PassesTo idx (r.behind pos) q) : PassesTo idx pos q

/-- No record that a scan from the offset on reads has a negative chain pointer. -/
def PointersValid (idx : Bytes) (pos : Nat) : Prop :=
  ∀ q r, PassesTo idx pos q → recordAt idx q = .ok r → 0 ≤ r.ptrval

/-- Where the loop of `db_nextrec` is left, and with what. -/
inductive StopsAt (idx : Bytes) (q : Nat) : Outcome Err (Bool × DB) → Prop where
  | key {r : IdxRecord} {db : DB} (found : recordAt idx q = .ok r) (pointer : 0 ≤ r.ptrval)
      (visible : isBlank (cstr r.fields.idxbuf) = false) : StopsAt idx q (.returned (true, db))
  | finish {db : DB} (ends : idx.length ≤ q) (idxoff : db.idxoff = q) : StopsAt idx q (.returned (false, db))
  | mistaken {r : IdxRecord} {db : DB} (found : recordAt idx q = .ok r) (negative : r.ptrval < 0) (idxoff : db.idxoff = q) :
      StopsAt idx q (.returned (false, db))
  | rejected {error : Err} (malformed : recordAt idx q = .error error) : StopsAt idx q (.aborted error)

/-- A readable record lies in the file, and the next one is behind it. -/
theorem behind_bounds {r : IdxRecord} (found : recordAt idx pos = .ok r) :
    pos < r.behind pos ∧ r.behind pos ≤ idx.length := by
  have checked := recordAt_ok found
  have whole := checked.text
  rw [readAt, List.length_take, List.length_drop] at whole
  have enough : 6 ≤ r.idxlen := checked.longEnough
  simp only [ptrSz, idxlenSz, IdxRecord.behind] at *
  omega

theorem not_recordAt_of_length_le {r : IdxRecord} (ends : idx.length ≤ pos) :
    recordAt idx pos ≠ .ok r := by
  intro found
  have bounds := behind_bounds found
  omega

theorem not_passed_of_stopsAt {outcome : Outcome Err (Bool × DB)} {r : IdxRecord}
    (stops : StopsAt idx pos outcome) :
    ¬Passed idx pos r := by
  intro passed
  cases stops with
  | key found pointer visible =>
    cases found.symm.trans passed.found
    rw [passed.blank] at visible
    cases visible
  | finish ends idxoff => exact not_recordAt_of_length_le ends passed.found
  | mistaken found negative idxoff =>
    cases found.symm.trans passed.found
    exact absurd passed.pointer (by omega)
  | rejected malformed => cases malformed.symm.trans passed.found

/-- Only one offset is both reached and not passed over. -/
theorem PassesTo.unique {q q' : Nat} (passes : PassesTo idx pos q) (passes' : PassesTo idx pos q')
    (last : ∀ r, ¬Passed idx q r)
    (last' : ∀ r, ¬Passed idx q' r) : q = q' := by
  induction passes with
  | here pos =>
    cases passes' with
    | here => rfl
    | record passed rest => exact absurd passed (last _)
  | record passed rest inductionHypothesis =>
    cases passes' with
    | here => exact absurd passed (last' _)
    | record passed' rest' =>
      cases passed.found.symm.trans passed'.found
      exact inductionHypothesis rest' last

/-- What one turn of the loop does: it passes over a record, or the loop is left. -/
inductive Turn (w : World Unit File) (pos : Nat) :
    Outcome Err ((Unit ⊕ Bool) × DB) → World Unit File → Prop where
  | again {r : IdxRecord} {db : DB} {w' : World Unit File} (passed : Passed (w.bytes .idx) pos r) (bytes : w'.bytes = w.bytes)
      (next : w'.pos () .idx = r.behind pos) : Turn w pos (.returned (.inl (), db)) w'
  | leave {found : Bool} {db : DB} {w' : World Unit File} (stops : StopsAt (w.bytes .idx) pos (.returned (found, db))) :
      Turn w pos (.returned (.inr found, db)) w'
  | aborts {error : Err} {w' : World Unit File} (stops : StopsAt (w.bytes .idx) pos (.aborted error)) : Turn w pos (.aborted error) w'

theorem exec_nextrecTurn (db : DB) (current : w.pos () .idx = pos) :
    ∃ outcome w', Exec soloKernel (nextrecTurn () db) w outcome w' ∧ Turn w pos outcome w' := by
  have target : w.target () .idx 0 (if (0 : Int) = 0 then .cur else .set) = pos := by
    simp [World.target, current]
  obtain ⟨outcome, w', reads, ends⟩ := exec_readidx db target
  cases ends with
  | @finish w' ends offset bytes =>
    refine ⟨.returned (.inr false, { db with idxoff := pos }), w', Exec.bind reads ?_,
      .leave (.finish ends rfl)⟩
    exact .ret _ _
  | stops malformed more => exact ⟨_, _, Exec.bind_aborted reads, .aborts (.rejected malformed)⟩
  | @record r w' found bytes next =>
    -- the value that is returned is taken for the end before the key is looked at
    by_cases negative : r.ptrval < 0
    · refine ⟨.returned (.inr false, r.into pos db), w', Exec.bind reads ?_,
        .leave (.mistaken found negative rfl)⟩
      exact Code.exec_if negative (.ret _ _)
    cases blank : isBlank (cstr r.fields.idxbuf) with
    | true =>
      refine ⟨.returned (.inl (), r.into pos db), w', Exec.bind reads ?_,
        .again ⟨found, by omega, blank⟩ bytes next⟩
      exact Code.exec_else negative (Code.exec_if blank (.ret _ _))
    | false =>
      refine ⟨.returned (.inr true, r.into pos db), w', Exec.bind reads ?_,
        .leave (.key found (by omega) blank)⟩
      exact Code.exec_else negative (Code.exec_else (ne_true_of_eq_false blank) (.ret _ _))

/-- The loop ends on every file: a record that is passed over takes the offset on, and lies in the
file. -/
theorem exec_nextrecLoop (db : DB) (current : w.pos () .idx = pos) (content : w.bytes .idx = idx) :
    ∃ outcome w' q, Exec soloKernel (Code.loop nextrecTurn () db) w outcome w' ∧
      PassesTo idx pos q ∧ StopsAt idx q outcome := by
  -- induction on what is left of the file
  induction left : idx.length - pos using Nat.strong_induction_on generalizing w db pos with
  | _ n inductionHypothesis =>
    subst content
    obtain ⟨outcome, w', turn, ends⟩ := exec_nextrecTurn db current
    cases ends with
    | aborts stops => exact ⟨_, _, pos, Code.exec_loop_stops turn, .here pos, stops⟩
    | leave stops => exact ⟨_, _, pos, Code.exec_loop_leave turn, .here pos, stops⟩
    | again passed bytes next =>
      have bounds := behind_bounds passed.found
      obtain ⟨outcome, w'', q, rest, passes, stops⟩ :=
        inductionHypothesis _ (by omega) _ next (congrFun bytes .idx) rfl
      exact ⟨outcome, w'', q, Code.exec_loop_again turn rest, .record passed passes, stops⟩

/-! ## The whole call -/

/-- The code comes to an end, whatever the state. -/
def Ends {α : Type} (m : DbM α) : Prop := ∀ db w, ∃ outcome w', Exec soloKernel (m db) w outcome w'

namespace Ends

variable {α β : Type}

theorem pure (value : α) : Ends (pure value : DbM α) := fun _ w => ⟨_, w, .ret _ _⟩

theorem abort (error : Err) : Ends (Code.abort error : DbM α) := fun _ w => ⟨_, w, .abort _ _⟩

theorem bind {m : DbM α} {f : α → DbM β} (first : Ends m) (second : ∀ value, Ends (f value)) :
    Ends (m >>= f) := by
  intro db w
  obtain ⟨outcome, w', runs⟩ := first db w
  cases outcome with
  | aborted error => exact ⟨_, w', Exec.bind_aborted runs⟩
  | returned result =>
    obtain ⟨outcome, w'', rest⟩ := second result.1 result.2 w'
    exact ⟨outcome, w'', Exec.bind runs rest⟩

theorem sys (c : FileCall File) : Ends (Db.sys c) := by
  intro db w
  have moves : (soloKernel c w).isSome :=
    fileKernel_isSome fun file type range _ => by simp [Locks.blocked]
  obtain ⟨⟨answer, w'⟩, answers⟩ := Option.isSome_iff_exists.1 moves
  exact ⟨_, w', .call answers (.ret _ _)⟩

theorem lockReg (file : File) (type : LockType) (offset len : Nat) (error : Err) :
    Ends (Db.lockReg file type offset len error) := by
  refine .bind (sys _) fun (granted : Bool) => ?_
  cases granted with
  | true => exact .pure ()
  | false => exact abort error

theorem unLock (file : File) (offset len : Nat) (error : Err) :
    Ends (Db.unLock file offset len error) := by
  refine .bind (sys _) fun (released : Bool) => ?_
  cases released with
  | true => exact .pure ()
  | false => exact abort error

theorem lseek (file : File) (offset : Int) (whence : Whence) (error : Err) :
    Ends (Db.lseek file offset whence error) := by
  refine .bind (sys _) fun (result : Option Nat) => ?_
  cases result with
  | none => exact abort error
  | some offset => exact .pure offset

theorem readdat : Ends dbReaddat := by
  intro db w
  refine Ends.bind (lseek .dat db.datoff .set .readdatLseek)
    (fun _ => .bind (sys (.read .dat db.datlen)) fun (datbuf : Bytes) => ?_) db w
  by_cases short : datbuf.length ≠ db.datlen
  · rw [if_pos short]
    exact abort _
  · rw [if_neg short]
    by_cases last : datbuf.getLast? ≠ some newline
    · rw [if_pos last]
      exact abort _
    · rw [if_neg last]
      exact fun db w => ⟨_, w, .ret _ _⟩

theorem nextrecFound (found : Bool) : Ends (Db.nextrecFound found) := by
  cases found with
  | false => exact .pure none
  | true =>
    have got : Ends (get : DbM DB) := fun db w => ⟨_, w, .ret _ _⟩
    refine got.bind fun current => readdat.bind fun data => ?_
    exact fun db w => ⟨_, w, .ret _ _⟩

end Ends

/-- A process that is alone gets every lock. -/
theorem exec_lockReg (w : World Unit File) (db : DB) (file : File) (type : LockType)
    (offset len : Nat) (error : Err) :
    ∃ w', Exec soloKernel (lockReg file type offset len error db) w (.returned ((), db)) w' ∧
      w'.bytes = w.bytes ∧ w'.pos = w.pos := by
  have free : w.locks.blocked () ⟨file, type, .ofLen offset len⟩ = false := by simp [Locks.blocked]
  have granted : soloKernel (.setlkw file type (.ofLen offset len)) w =
      some (true, { w with locks := w.locks.acquire () ⟨file, type, .ofLen offset len⟩ }) := by
    change (if _ then none else _) = _
    rw [free]
    rfl
  exact ⟨_, .call granted (.ret _ _), rfl, rfl⟩

theorem exec_unLock (w : World Unit File) (db : DB) (file : File) (offset len : Nat) (error : Err) :
    ∃ w', Exec soloKernel (unLock file offset len error db) w (.returned ((), db)) w' ∧
      w'.bytes = w.bytes ∧ w'.pos = w.pos :=
  ⟨_, .call rfl (.ret _ _), rfl, rfl⟩

/-- A record that `db_nextrec` has stopped at is returned. -/
theorem isSome_nextrecFound {record : Option (Bytes × Bytes)}
    (runs : Exec soloKernel (nextrecFound true db) w (.returned (record, db')) w') :
    record.isSome := by
  change Exec soloKernel ((dbReaddat db).bind _) _ _ _ at runs
  obtain ⟨⟨data, db₁⟩, w₁, -, rest⟩ := runs.of_bind_returned
  cases rest with
  | ret value w => rfl

/-- Every call ends. -/
theorem Ends.nextrec : Ends dbNextrec := by
  have loops : Ends (Code.loop nextrecTurn ()) := fun db w =>
    have ⟨outcome, w', _, runs, _⟩ := exec_nextrecLoop db (w := w) rfl rfl
    ⟨outcome, w', runs⟩
  exact .bind (lockReg _ _ _ _ _) fun _ => loops.bind fun found => .bind (nextrecFound found)
      fun record =>
    .bind (unLock _ _ _ _) fun _ => .pure record

/-- A call that returns the null pointer has left the loop without a record. -/
theorem stopsAt_of_nextrec (none : Exec soloKernel (dbNextrec db) w (.returned (none, db')) w') :
    ∃ q, PassesTo (w.bytes .idx) (w.pos () .idx) q ∧
      StopsAt (w.bytes .idx) q (.returned (false, db')) := by
  obtain ⟨w₁, locks, bytes, pos⟩ := exec_lockReg w db .idx .read freeOff 1 .nextrecLock
  obtain ⟨outcome, w₂, q, loops, passes, stops⟩ :=
    exec_nextrecLoop db (congrFun (congrFun pos ()) .idx) (congrFun bytes .idx)
  have rest := none.after locks
  obtain ⟨⟨found, db₁⟩, w₃, loops', rest⟩ := rest.of_bind_returned
  obtain ⟨rfl, rfl⟩ := loops.deterministic loops'
  obtain ⟨⟨record, db₂⟩, w₄, reads, rest⟩ := rest.of_bind_returned
  obtain ⟨w₅, unlocks, -, -⟩ := exec_unLock w₄ db₂ .idx freeOff 1 .nextrecUnlock
  have last := rest.after unlocks
  cases last with
  | ret value w =>
    refine ⟨q, passes, ?_⟩
    cases found with
    | false =>
      cases reads with
      | ret value w => exact stops
    | true => exact absurd (isSome_nextrecFound reads) (by simp)

theorem nextrec_of_stopsAt (db : DB) {q : Nat} (passes : PassesTo (w.bytes .idx) (w.pos () .idx) q)
    {r : IdxRecord}
    (found : recordAt (w.bytes .idx) q = .ok r) (negative : r.ptrval < 0) :
    ∃ db' w', Exec soloKernel (dbNextrec db) w (.returned (none, db')) w' ∧ db'.idxoff = q := by
  obtain ⟨w₁, locks, bytes, pos⟩ := exec_lockReg w db .idx .read freeOff 1 .nextrecLock
  obtain ⟨outcome, w₂, q', loops, passes', stops⟩ :=
    exec_nextrecLoop db (congrFun (congrFun pos ()) .idx) (congrFun bytes .idx)
  -- the loop stops at the record, and nowhere else
  have last : ∀ r', ¬Passed (w.bytes .idx) q r' := by
    intro r' passed
    cases found.symm.trans passed.found
    exact absurd passed.pointer (by omega)
  obtain rfl : q = q' := passes.unique passes' last fun _ => not_passed_of_stopsAt stops
  cases stops with
  | key found' pointer visible =>
    cases found.symm.trans found'
    exact absurd pointer (by omega)
  | finish ends idxoff => exact absurd found (not_recordAt_of_length_le ends)
  | rejected malformed => cases malformed.symm.trans found
  | mistaken found' negative' idxoff =>
    obtain ⟨w₃, unlocks, -, -⟩ := exec_unLock w₂ _ .idx freeOff 1 .nextrecUnlock
    exact ⟨_, w₃, Exec.bind locks
      (Exec.bind loops (Exec.bind (.ret _ _) (Exec.bind unlocks (.ret _ _)))), idxoff⟩

/-- A call of `db_nextrec` ends on every file and from every offset, and it returns the null pointer
only at the end of the file if and only if no record that it reads has a negative chain pointer. -/
theorem nextrec_end (db : DB) (w : World Unit File) :
    (∃ outcome w', Exec soloKernel (dbNextrec db) w outcome w') ∧
      ((∀ db' w', Exec soloKernel (dbNextrec db) w (.returned (none, db')) w' →
        (w.bytes .idx).length ≤ db'.idxoff) ↔
        PointersValid (w.bytes .idx) (w.pos () .idx)) := by
  refine ⟨Ends.nextrec db w, ?_, ?_⟩
  · intro onlyAtEnd q r passes found
    -- the call would return at that record, which is not at the end
    by_contra negative
    obtain ⟨db', w', none, idxoff⟩ := nextrec_of_stopsAt db passes found (by omega)
    have ends := onlyAtEnd db' w' none
    rw [idxoff] at ends
    exact not_recordAt_of_length_le ends found
  · intro valid db' w' none
    obtain ⟨q, passes, stops⟩ := stopsAt_of_nextrec none
    cases stops with
    | finish ends idxoff =>
      rw [idxoff]
      exact ends
    | mistaken found negative idxoff => exact absurd (valid q _ passes found) (by omega)

/-- Behind the table of the index file stands one record, with the chain pointer -1; `db_rewind` has
put the offset there. -/
def negativePointer : World Unit File :=
  { World.absent with
    bytes := fun file => if file = .idx then emptyTable ++ (ascii "     -1   6a:0:2" ++ [newline]) else ascii "x" ++ [newline]
    present := fun _ => true
    pos := fun _ _ => emptyTable.length }

/-- The call takes the record for the end of the file. -/
theorem nextrec_mistakes_record :
    ∃ db' w', Exec soloKernel (dbNextrec {}) negativePointer (.returned (none, db')) w' ∧
    db'.idxoff < (negativePointer.bytes .idx).length ∧
      (recordAt (negativePointer.bytes .idx) db'.idxoff).isOk := by
  have ran : (dbNextrec.returns soloKernel 100 ({}, negativePointer)).map (fun (record, db', _) =>
      decide (record = none ∧ db'.idxoff < (negativePointer.bytes .idx).length ∧
        (recordAt (negativePointer.bytes .idx) db'.idxoff).isOk = true)) = some true := by
    decide +kernel
  obtain ⟨⟨record, db', w'⟩, returned, checks⟩ := Option.map_eq_some_iff.1 ran
  obtain ⟨rfl, before, readable⟩ := of_decide_eq_true checks
  exact ⟨db', w', Code.returns_sound returned, before, readable⟩

end Apue.Db
