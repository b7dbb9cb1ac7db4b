import Apue.Db.Deadlock
import Apue.Db.Layout
import Apue.Db.Scan
import Apue.Db.Store

/-! # One process

What the operations do when one process has the database to itself: each runs to its end, and leaves
the files of a database again.
-/

namespace Apue.Db

open Apue.Base St

variable {room : Nat} {d : Layout} {w : World Unit File} {db : DB} {α : Type}

abbrev soloKernel : Kernel (FileSig File) (World Unit File) := fileKernel ()

theorem soloKernel_lseek {file : File} {offset : Int} {whence : Whence} {n : Nat}
    (target : w.target () file offset whence = n) :
    soloKernel (.lseek file offset whence) w = some (some n, w.setPos () file n) := by
  change fileKernel () (.lseek file offset whence) w = _
  rw [fileKernel, target, if_neg (by omega), Int.toNat_natCast]
  rfl

/-- A negative offset is refused. -/
theorem soloKernel_lseek_negative {file : File} {offset : Int} {whence : Whence}
    (negative : w.target () file offset whence < 0) :
    soloKernel (.lseek file offset whence) w = some (none, w) := by
  change fileKernel () (.lseek file offset whence) w = _
  rw [fileKernel, if_pos negative]
  rfl

/-- Nothing is assumed of the calls. -/
abbrev anyCall : Unit → FileCall File → St Unit → Prop := fun _ _ _ => True

theorem alone : Alone () := fun _ => rfl

/-- What is proved of a process among others holds of its run alone, in which lost records stay as
they are. -/
theorem runs_alone {σ : St Unit} {m : DbM α} {E : Err → St Unit → Prop}
    {Q : α → DB → St Unit → Prop}
    (triple : Triple (discipline room anyCall) () E σ m db Q) (inv : Coherent room σ) :
    ∃ outcome τ, Exec soloKernel (m db) σ.w outcome τ.w ∧ Coherent room τ ∧ σ.Same τ .lost ∧
      outcome.Satisfies (fun result => Q result.1 result.2 τ) (E · τ) := by
  have moves (τ : St Unit) (_ : Coherent room τ) (c : FileCall File) : (soloKernel c τ.w).isSome :=
    fileKernel_isSome fun file type range _ => by simp [Locks.blocked]
  have safe := triple σ (Rely.refl () σ) inv
  obtain ⟨outcome, τ, runs, inv', same, holds⟩ :=
    safe.exec_along (R := fun σ τ => σ.Same τ .lost) (fun σ => .refl σ _)
    .trans (fun (kept : Guar () _ _) => kept.same .lost id) inv (fun _ _ => trivial) moves
  refine ⟨outcome, τ, runs, inv', same, ?_⟩
  cases outcome with
  | returned value =>
    obtain ⟨-, σ', holds, relied⟩ := holds
    rw [relied.alone alone]
    exact holds
  | aborted error =>
    obtain ⟨-, σ', holds, relied⟩ := holds
    rw [relied.alone alone]
    exact holds

/-- The same of code that does not abort. -/
theorem returns_alone {σ : St Unit} {m : DbM α} {Q : α → DB → St Unit → Prop}
    (triple : Triple (discipline room anyCall) () (fun _ _ => False) σ m db Q)
    (inv : Coherent room σ) :
    ∃ value db' τ, Exec soloKernel (m db) σ.w (.returned (value, db')) τ.w ∧ Coherent room τ ∧
      σ.Same τ .lost ∧ Q value db' τ := by
  obtain ⟨outcome, τ, runs, inv', same, holds⟩ := runs_alone triple inv
  cases outcome with
  | aborted error => exact holds.elim
  | returned result => exact ⟨result.1, result.2, τ, runs, inv', same, holds⟩

/-- The process has a handle on a database of the layout `d`, and is in no call. -/
structure Usable (w : World Unit File) (db : DB) (d : Layout) : Prop where
  rep : DbRep (w.bytes .idx) (w.bytes .dat) d
  unlocked : w.locks = []
  nhash : db.nhash = nhashDef
  hashoff : db.hashoff = hashOff

namespace Usable

variable (usable : Usable w db d)

/-- The state at the start of an operation. -/
abbrev start (d : Layout) (w : World Unit File) (op : Op) : St Unit :=
  d.state w fun _ => .pending op

include usable in
theorem coherent (fits : d.img.size ≤ room) (op : Op) : Coherent room (start d w op) :=
  usable.rep.coherent usable.unlocked fits _

include usable in
theorem ready (op : Op) : Ready (start d w op) () op := by
  refine ⟨fun l => ?_, rfl, rfl, rfl⟩
  rw [show (start d w op).w.locks = [] from usable.unlocked]
  simp

end Usable

theorem Holding.unlocked {σ : St Unit} (holding : Holding σ () []) : σ.w.locks = [] := by
  refine List.eq_nil_iff_forall_not_mem.2 fun (p, l) held => ?_
  cases (holding l).1 held

/-- The state at the end of an operation is a database again. -/
theorem Coherent.usable {σ : St Unit} {db : DB} (inv : Coherent room σ) (holding : Holding σ () [])
    (nhash : db.nhash = nhashDef)
    (hashoff : db.hashoff = hashOff) : Usable σ.w db σ.layout ∧ σ.layout.map = σ.map := by
  obtain ⟨rep, map⟩ := inv.rep fun p l held => by cases (holding l).1 held
  exact ⟨⟨rep, holding.unlocked, nhash, hashoff⟩, map⟩

theorem Untouched.usable {op : Op} {σ : St Unit} {db : DB} (usable : Usable w db d) {db' : DB}
    (untouched : Untouched (Usable.start d w op) σ) (holding : Holding σ () [])
    (nhash : db'.nhash = nhashDef)
    (hashoff : db'.hashoff = hashOff) : Usable σ.w db' d := by
  refine ⟨?_, holding.unlocked, nhash, hashoff⟩
  rw [untouched.bytes]
  exact usable.rep

/-! ## The operations -/

namespace Usable

theorem fetch (usable : Usable w db d) {key : Bytes} (clean : NulFree key) :
    ∃ db' w', Exec soloKernel (dbFetch key db) w (.returned (d.map key, db')) w' ∧ Usable w' db' d ∧
      w'.bytes = w.bytes ∧
      ∃ visited, Visits (start d w (.fetch key)) key visited ∧
        w'.pos () .idx = walkEnd d.img (dbHash nhashDef key) visited := by
  obtain ⟨data, db', τ, runs, -, -, nhash, hashoff, finished, -, alone'⟩ :=
    returns_alone (triple_fetch clean
    (usable.ready (.fetch key)) usable.nhash usable.hashoff) (usable.coherent (Nat.le_refl _) _)
  obtain ⟨untouched, isData, visited, visits, pos⟩ := alone' alone
  have isData : data = d.map key := isData
  rw [isData] at runs
  exact ⟨db', τ.w, runs, untouched.usable usable finished.holding nhash hashoff, untouched.bytes,
    visited, visits, pos⟩

theorem map_of_fetch (usable : Usable w db d) {key : Bytes} {data : Option Bytes} {db' : DB}
    {w' : World Unit File}
    (clean : NulFree key)
    (fetches : Exec soloKernel (dbFetch key db) w (.returned (data, db')) w') :
    d.map key = data := by
  obtain ⟨_, _, found, -⟩ := usable.fetch clean
  exact congrArg Prod.fst (Outcome.returned.inj (found.deterministic fetches).1)

theorem delete (usable : Usable w db d) {key : Bytes} (clean : NulFree key) :
    ∃ db' w' d', Exec soloKernel (dbDelete key db) w (.returned ((mapDelete d.map key).1, db')) w' ∧
      Usable w' db' d' ∧
      d'.map = (mapDelete d.map key).2 ∧ d'.lost = d.lost := by
  obtain ⟨rc, db', τ, runs, inv, -, holds⟩ :=
    returns_alone (triple_delete clean (usable.ready (.delete key)) usable.nhash
    usable.hashoff) (usable.coherent (Nat.le_refl _) _)
  obtain ⟨usable', map⟩ := inv.usable holds.finished.holding holds.nhash holds.hashoff
  obtain ⟨isRc, isMap⟩ := holds.alone alone
  have isRc : rc = (mapDelete d.map key).1 := isRc
  rw [isRc] at runs
  exact ⟨db', τ.w, τ.layout, runs, usable', map.trans isMap, holds.lost⟩

/-- The room for one more record. -/
abbrev roomy (d : Layout) : Nat := d.img.size + 11 + idxlenMax

/-- A store, with what is said of it where it stops. -/
theorem store (usable : Usable w db d) {key data : Bytes} {flag : Flag} {E : Err → St Unit → Prop}
    (storable : Storable key data)
    (limit : Limit (roomy d) anyCall E () key data flag (start d w (.store key data flag))) :
    (∃ db' w' d', Exec soloKernel (dbStore key data flag.code db) w
        (.returned ((mapStore d.map key data flag).1, db')) w' ∧
        Usable w' db' d' ∧ d'.map = (mapStore d.map key data flag).2 ∧ d'.lost = d.lost) ∨
      ∃ error τ, Exec soloKernel (dbStore key data flag.code db) w (.aborted error) τ.w ∧
        Coherent (roomy d) τ ∧ E error τ := by
  obtain ⟨outcome, τ, runs, inv, -, holds⟩ :=
    runs_alone (triple_store storable limit (usable.ready _) usable.nhash
    usable.hashoff) (usable.coherent (by simp only [roomy]; omega) _)
  cases outcome with
  | aborted error => exact .inr ⟨error, τ, runs, inv, holds⟩
  | returned value =>
    obtain ⟨rc, db'⟩ := value
    obtain ⟨usable', map⟩ := inv.usable holds.finished.holding holds.nhash holds.hashoff
    obtain ⟨isRc, isMap⟩ := holds.alone alone
    have isRc : rc = (mapStore d.map key data flag).1 := isRc
    rw [isRc] at runs
    exact .inl ⟨db', τ.w, τ.layout, runs, usable', map.trans isMap, holds.lost⟩

theorem rewind (usable : Usable w db d) :
    ∃ db' w', Exec soloKernel (dbRewind db) w (.returned ((), db')) w' ∧
    Usable w' db' d ∧ w'.bytes = w.bytes ∧ w'.pos () .idx = recordsOff := by
  obtain ⟨_, db', τ, runs, -, -, holds⟩ :=
    returns_alone (triple_rewind (usable.ready .rewind) usable.nhash usable.hashoff)
    (usable.coherent (Nat.le_refl _) _)
  have untouched := holds.alone alone
  exact ⟨db', τ.w, runs, untouched.usable usable holds.finished.holding holds.nhash holds.hashoff,
    untouched.bytes, holds.pos⟩

/-- A scan that goes on at a record. -/
theorem nextrec (usable : Usable w db d) (boundary : Boundary d.img (w.pos () .idx)) :
    ∃ record db' w', Exec soloKernel (dbNextrec db) w (.returned (record, db')) w' ∧
      Usable w' db' d ∧ w'.bytes = w.bytes ∧
      NextIs d.img (w.pos () .idx) record (w'.pos () .idx) ∧ Boundary d.img (w'.pos () .idx) := by
  obtain ⟨record, db', τ, runs, -, -, holds⟩ :=
    returns_alone (triple_nextrec (usable.ready .nextrec) boundary usable.nhash
    usable.hashoff) (usable.coherent (Nat.le_refl _) _)
  obtain ⟨untouched, next⟩ := holds.alone alone
  have boundary' := holds.boundary
  rw [untouched.img] at boundary'
  exact ⟨record, db', τ.w, runs, untouched.usable usable holds.holding holds.nhash holds.hashoff,
    untouched.bytes, next, boundary'⟩

end Usable

/-! ## A scan from anywhere -/

/-- No file is written, created or truncated. -/
def readOnly : Checker (FileSig File) Err Unit where
  guard _
    | .write .. => False
    | .openFile .. => False
    | _ => True
  next _ _ _ _ := True
  stops _ _ := True

/-- The code only reads. -/
abbrev ReadsOnly (m : DbM α) : Prop := readOnly.Preserves (fun _ _ => True) m

namespace ReadsOnly

open Checker (Preserves)

theorem abort (error : Err) : ReadsOnly (Code.abort error : DbM α) :=
  Preserves.abort fun _ _ _ => trivial

theorem modified (f : DB → DB) : ReadsOnly (modify f : DbM PUnit) :=
  Preserves.modified fun _ _ _ => trivial

theorem sys {c : FileCall File} (reads : readOnly.guard () c) : ReadsOnly (Db.sys c) :=
  Preserves.call (fun _ _ _ => reads) fun _ _ _ _ _ _ => trivial

theorem lseek (file : File) (offset : Int) (whence : Whence) (error : Err) :
    ReadsOnly (Db.lseek file offset whence error) := by
  refine .bind (sys trivial) fun result => ?_
  cases result with
  | none => exact abort error
  | some offset => exact .pure offset

theorem read (file : File) (count : Nat) : ReadsOnly (Db.read file count) := sys trivial

theorem lockReg (file : File) (type : LockType) (offset len : Nat) (error : Err) :
    ReadsOnly (Db.lockReg file type offset len error) :=
  .bind (sys trivial) fun (_ : Bool) => .ite (.pure _) (abort error)

theorem unLock (file : File) (offset len : Nat) (error : Err) :
    ReadsOnly (Db.unLock file offset len error) :=
  .bind (sys trivial) fun (_ : Bool) => .ite (.pure _) (abort error)

theorem readidx (offset : Int) : ReadsOnly (dbReadidx offset) := by
  refine .bind (lseek ..) fun _ => .bind (modified _) fun _ => .bind (read ..) fun iov => ?_
  refine .ite ?_ (.ite (.pure _) (abort _))
  refine .bind (modified _) fun _ =>
    .ite (abort _) (.bind (read ..) fun idxbuf => .ite (abort _) ?_)
  split
  · exact abort _
  · exact .bind (modified _) fun _ => .pure _

theorem readdat : ReadsOnly dbReaddat := by
  refine .get fun _ => .bind (lseek ..) fun _ => .bind (read ..) fun _ =>
    .ite (abort _) (.ite (abort _) ?_)
  exact .bind (modified _) fun _ => .pure _

theorem nextrec : ReadsOnly dbNextrec := by
  refine .bind (lockReg ..) fun _ => .bind (.loop (fun _ => ?_) _) fun found => ?_
  · exact .bind (readidx _) fun _ => .ite (.pure _) (.get fun _ => .ite (.pure _) (.pure _))
  · refine .bind (.ite (.get fun _ => .bind readdat fun _ => ?_) (.pure _)) fun _ =>
      .bind (unLock ..) fun _ => .pure _
    exact .bind (modified _) fun _ => .pure _

theorem step {t : Unit} {w₁ w₂ : World Unit File} {c : FileCall File} {answer : FileCall.Answer c}
    (may : readOnly.guard t c)
    (answers : soloKernel c w₁ = some (answer, w₂)) : w₂.bytes = w₁.bytes := by
  cases c with
  | write file buffer => exact may.elim
  | openFile file creat trunc => exact may.elim
  | lseek file offset whence =>
    simp only [soloKernel, fileKernel] at answers
    split at answers <;> cases answers <;> rfl
  | setlkw file type range =>
    simp only [soloKernel, fileKernel] at answers
    split at answers <;> cases answers
    rfl
  | _ =>
    cases answers
    rfl

theorem exec {m : DbM α} (reads : ReadsOnly m) {outcome : Outcome Err (α × DB)}
    {w' : World Unit File}
    (runs : Exec soloKernel (m db) w outcome w') : w'.bytes = w.bytes := by
  obtain ⟨-, same, -⟩ := Checker.Follows.exec (R := fun _ w' => w'.bytes = w.bytes)
    (fun same may answers => ⟨(), trivial, (step may answers).trans same⟩) runs
    (reads.keeps (l := db) (t := ()) trivial) rfl
  exact same

end ReadsOnly

/-- Wherever the file offset is, `db_nextrec` leaves the database as it is. -/
theorem Usable.nextrec_any (usable : Usable w db d)
    {outcome : Outcome Err (Option (Bytes × Bytes) × DB)} {w' : World Unit File}
    (runs : Exec soloKernel (dbNextrec db) w outcome w') :
    w'.bytes = w.bytes ∧ ∀ record db', outcome = .returned (record, db') → Usable w' db' d := by
  have same := ReadsOnly.nextrec.exec runs
  refine ⟨same, ?_⟩
  rintro record db' rfl
  obtain ⟨held, related, rfl, nhash, hashoff⟩ :=
    Checker.Follows.exec (R := holds ()) holds_step runs
    (Quiet.nextrec.keeps db usable.nhash usable.hashoff) fun l => by simp [usable.unlocked]
  refine ⟨same ▸ usable.rep, ?_, nhash, hashoff⟩
  exact List.eq_nil_iff_forall_not_mem.2 fun (p, l) member => by cases (related l).1 member

end Apue.Db
