import Apue.Base.Typestate
import Apue.Db.Locks
import Apue.Db.System
import Mathlib.Logic.Relation

/-! # The locking order

A process waits for a record lock either holding none, or holding just the write lock of one hash
chain and asking for the free list or for the end of a file.  `lockOrder` follows every entry point
of the library, whatever the files contain, and checks that; a process that holds anything but a
chain therefore never waits, and the waits cannot close a cycle.
-/

namespace Apue.Db

open Apue.Base

abbrev Held := List (Lock File)

/-- A process that holds `held` may wait for `l`. -/
def MayWait (held : Held) (l : Lock File) : Prop :=
  held = [] ∨ (∃ h < nhashDef, held = [(Place.chain h).lock .write]) ∧
    (l = Place.free.lock .write ∨ l = Place.idxEnd.lock .write ∨ l = Place.datEnd.lock .write)

def lockOrder : Checker (FileSig File) Err Held where
  guard held
    | .setlkw file type range => MayWait held ⟨file, type, range⟩ ∧ range.overlaps range = true
    | .unlock file range => range.overlaps range = true ∧
        ∀ l ∈ held, l.file = file → l.range.overlaps range = true → l.range = range
    | _ => True
  next held c _ held' := match c with
    | .setlkw file type range => held' = ⟨file, type, range⟩ :: held
    | .unlock file range => held' = held.filter fun l => ¬(l.file = file ∧ l.range = range)
    | .close file => held' = held.filter fun l => l.file ≠ file
    | _ => held' = held
  stops _ _ := True

/-- Started with the locks `held`, the code ends with the locks `held'`, and on the same chain. -/
structure Locking {α : Type} (chainoff : Nat) (held held' : Held) (m : DbM α) : Prop where
  keeps : ∀ db, OnChain chainoff db → lockOrder.Keeps held m db fun _ db' now => now = held' ∧
    OnChain chainoff db'

namespace Locking

variable {α β σ : Type} {chainoff : Nat} {held held' : Held}

theorem pure (value : α) : Locking chainoff held held (Pure.pure value : DbM α) :=
  ⟨fun _ here => .pure ⟨rfl, here⟩⟩

theorem abort (error : Err) : Locking chainoff held held' (Code.abort error : DbM α) :=
  ⟨fun _ _ => .abort trivial⟩

theorem modified {f : DB → DB} (same : ∀ db, OnChain chainoff db → OnChain chainoff (f db)) :
    Locking chainoff held held (modify f : DbM PUnit) :=
  ⟨fun db here => .modified ⟨rfl, same db here⟩⟩

theorem bind {M : Held} {m : DbM α} {f : α → DbM β} (first : Locking chainoff held M m)
    (second : ∀ value, Locking chainoff M held' (f value)) :
    Locking chainoff held held' (m >>= f) := by
  refine ⟨fun db here => (first.keeps db here).bind ?_⟩
  rintro value db' _ ⟨rfl, here'⟩
  exact (second value).keeps db' here'

theorem get {f : DB → DbM α}
    (second : ∀ db, OnChain chainoff db → Locking chainoff held held' (f db)) :
    Locking chainoff held held' (MonadState.get >>= f) := by
  refine ⟨fun db here => Checker.Keeps.bind (.get (Q := fun db' db'' now => db' = db ∧ db'' = db ∧
    now = held)
    ⟨rfl, rfl, rfl⟩) ?_⟩
  rintro _ _ _ ⟨rfl, rfl, rfl⟩
  exact (second _ here).keeps _ here

theorem ite {c : Prop} [Decidable c] {m n : DbM α} (yes : Locking chainoff held held' m)
    (no : Locking chainoff held held' n) : Locking chainoff held held' (if c then m else n) := by
  split
  · exact yes
  · exact no

theorem loop {body : σ → DbM (σ ⊕ β)} (turn : ∀ state, Locking chainoff held held (body state))
    (state : σ) :
    Locking chainoff held held (Code.loop body state) := by
  refine ⟨fun db here => ?_⟩
  refine Checker.Keeps.loop (I := fun _ db' now => now = held ∧ OnChain chainoff db') ?_ ⟨rfl, here⟩
  rintro state db' _ ⟨rfl, here'⟩
  refine ((turn state).keeps db' here').weaken fun result db'' now kept => ?_
  cases result <;> exact kept

/-! ## System calls -/

/-- Calls that do not touch the lock table. -/
theorem plain (c : FileCall File) (free : ∀ held, lockOrder.guard held c)
    (same : ∀ held answer held', lockOrder.next held c answer held' → held' = held) :
    Locking chainoff held held (sys c) :=
  ⟨fun _ here => .call (free held) fun answer now moved => ⟨same held answer now moved, here⟩⟩

theorem lseek (file : File) (offset : Int) (whence : Whence) (error : Err) :
    Locking chainoff held held (Db.lseek file offset whence error) := by
  refine (plain (.lseek file offset whence) (fun _ => trivial) fun _ _ _ same =>
    same).bind fun result => ?_
  cases result with
  | none => exact .abort error
  | some offset => exact .pure offset

theorem read (file : File) (count : Nat) : Locking chainoff held held (Db.read file count) :=
  plain (.read file count) (fun _ => trivial) fun _ _ _ same => same

theorem write (file : File) (buffer : Bytes) (error : Err) :
    Locking chainoff held held (Db.write file buffer error) :=
  .bind (plain (.write file buffer) (fun _ => trivial) fun _ _ _ same => same) fun (_ : Nat) =>
    .ite (.pure _) (.abort error)

theorem lockReg {file : File} {type : LockType} {offset len : Nat} {error : Err}
    (may : MayWait held ⟨file, type, .ofLen offset len⟩) :
    Locking chainoff held (⟨file, type, .ofLen offset len⟩ :: held) (Db.lockReg file type offset len
      error) := by
  refine .bind (M := ⟨file, type, .ofLen offset len⟩ :: held) ⟨fun db here =>
      ?_⟩ fun (granted : Bool) =>
    .ite (.pure _) (.abort error)
  exact .call ⟨may, Range.ofLen_overlaps_self ..⟩ fun _ now moved => ⟨moved, here⟩

/-- The lock that is given up is the one taken last, and no other lock touches it. -/
theorem unLock {file : File} {type : LockType} {offset len : Nat} {error : Err}
    (others : ∀ l ∈ held, l.file = file → l.range.overlaps (.ofLen offset len) = false) :
    Locking chainoff (⟨file, type, .ofLen offset len⟩ :: held) held
      (Db.unLock file offset len error) := by
  have kept : held.filter (fun l => ¬(l.file = file ∧ l.range = .ofLen offset len)) = held := by
    refine List.filter_eq_self.2 fun l member => ?_
    simp only [decide_not, Bool.not_eq_eq_eq_not, Bool.not_true, decide_eq_false_iff_not]
    rintro ⟨sameFile, sameRange⟩
    have apart := others l member sameFile
    rw [sameRange, Range.ofLen_overlaps_self] at apart
    cases apart
  refine .bind (M := held) ⟨fun db here => ?_⟩ fun (released : Bool) =>
    .ite (.pure _) (.abort error)
  refine .call ⟨Range.ofLen_overlaps_self .., fun l member sameFile touch =>
    ?_⟩ fun _ now moved => ⟨?_, here⟩
  · rcases List.mem_cons.1 member with rfl | older
    · rfl
    · rw [others l older sameFile] at touch
      cases touch
  · rw [moved, List.filter_cons_of_neg (by simp)]
    exact kept

/-! ## The functions of the library -/

theorem readptr (offset : Int) : Locking chainoff held held (dbReadptr offset) :=
  .bind (lseek ..) fun _ => .bind (read ..) fun _ => .ite (.abort _) (.pure _)

theorem readidxRecord (iov : Bytes) : Locking chainoff held held (dbReadidxRecord iov) := by
  refine .bind (modified fun _ here => ⟨here.1, here.2, here.3⟩) fun _ => .ite (.abort _) ?_
  refine .bind (read ..) fun idxbuf => .ite (.abort _) ?_
  split
  · exact .abort _
  · exact .bind (modified fun _ here => ⟨here.1, here.2, here.3⟩) fun _ => .pure _

theorem readidx (offset : Int) : Locking chainoff held held (dbReadidx offset) := by
  refine .bind (lseek ..) fun _ =>
    .bind (modified fun _ here => ⟨here.1, here.2, here.3⟩) fun _ => ?_
  exact .bind (read ..) fun _ => .ite (readidxRecord _) (.ite (.pure _) (.abort _))

theorem readdat : Locking chainoff held held dbReaddat := by
  refine get fun _ _ => .bind (lseek ..) fun _ => .bind (read ..) fun _ =>
    .ite (.abort _) (.ite (.abort _) ?_)
  exact .bind (modified fun _ here => ⟨here.1, here.2, here.3⟩) fun _ => .pure _

theorem writeptr (offset ptrval : Int) : Locking chainoff held held (dbWriteptr offset ptrval) :=
  .ite (.abort _) (.bind (lseek ..) fun _ => write ..)

theorem whenAppending {m : DbM Unit} {whence : Whence}
    (append : whence = .fromEnd → Locking chainoff held held' m)
    (inPlace : whence ≠ .fromEnd → held = held') :
    Locking chainoff held held' (Db.whenAppending whence m) := by
  unfold Db.whenAppending
  split
  · exact append ‹_›
  · rw [inPlace ‹_›]
    exact .pure _

/-- What is held while appending: the lock of the end of the file, unless the write is in place. -/
def appending (whence : Whence) (place : Place) (held : Held) : Held :=
  if whence = .fromEnd then place.lock .write :: held else held

theorem lockEnd {P : Place} {whence : Whence} {m : DbM Unit}
    (lock : whence = .fromEnd → Locking chainoff held (P.lock .write :: held) m) :
    Locking chainoff held (appending whence P held) (Db.whenAppending whence m) := by
  unfold appending
  refine whenAppending (fun atEnd => ?_) fun inPlace => by rw [if_neg inPlace]
  rw [if_pos atEnd]
  exact lock atEnd

theorem unlockEnd {P : Place} {whence : Whence} {m : DbM Unit}
    (unlock : whence = .fromEnd → Locking chainoff (P.lock .write :: held) held m) :
    Locking chainoff (appending whence P held) held (Db.whenAppending whence m) := by
  unfold appending
  refine whenAppending (fun atEnd => ?_) fun inPlace => by rw [if_neg inPlace]
  rw [if_pos atEnd]
  exact unlock atEnd

theorem writedat {data : Bytes} {offset : Int} {whence : Whence}
    (may : whence = .fromEnd → MayWait held (Place.datEnd.lock .write) ∧
    ∀ l ∈ held, l.file ≠ .dat) :
    Locking chainoff held held (dbWritedat data offset whence) := by
  refine .bind (lockEnd (P := .datEnd) fun atEnd => lockReg (may atEnd).1) fun _ =>
    .bind (lseek ..) fun _ => ?_
  refine .bind (modified fun _ here => ⟨here.1, here.2, here.3⟩) fun _ =>
    .bind (write ..) fun _ => ?_
  exact unlockEnd fun atEnd => unLock fun l member sameFile =>
    absurd sameFile ((may atEnd).2 l member)

theorem writeidxRecord {idxbuf : Bytes} {offset ptrval : Int} {whence : Whence}
    (may : whence = .fromEnd → MayWait held (Place.idxEnd.lock .write) ∧
      ∀ l ∈ held, l.file = .idx → l.range.overlaps Place.idxEnd.range = false) :
    Locking chainoff held held (dbWriteidxRecord idxbuf offset whence ptrval) := by
  refine get fun db here => ?_
  simp only [here.nhash]
  refine .bind (lockEnd (P := .idxEnd) fun atEnd => lockReg (may atEnd).1) fun _ =>
    .bind (lseek ..) fun _ => ?_
  refine .bind (modified fun _ here => ⟨here.1, here.2, here.3⟩) fun _ =>
    .bind (write ..) fun _ => ?_
  exact unlockEnd fun atEnd => unLock (may atEnd).2

theorem writeidx {key : Bytes} {offset ptrval : Int} {whence : Whence}
    (may : whence = .fromEnd → MayWait held (Place.idxEnd.lock .write) ∧
      ∀ l ∈ held, l.file = .idx → l.range.overlaps Place.idxEnd.range = false) :
    Locking chainoff held held (dbWriteidx key offset whence ptrval) := by
  refine .bind (modified fun _ here => ⟨here.1, here.2, here.3⟩) fun _ =>
    .ite (.abort _) (get fun db _ => ?_)
  refine .ite (.abort _) (.bind (modified fun _ here => ⟨here.1, here.2, here.3⟩) fun _ =>
    .ite (.abort _) ?_)
  exact writeidxRecord may

end Locking

/-! ## Under the lock of a chain -/

/-- What a process holds from `_db_find_and_lock` on. -/
abbrev chainHeld (key : Bytes) (type : LockType) : Held := [(keyPlace key).lock type]

theorem mayWait_chain {key : Bytes} {P : Place} (notChain : ∀ h, P ≠ .chain h) :
    MayWait (chainHeld key .write) (P.lock .write) := by
  refine .inr ⟨⟨_, dbHash_lt key, rfl⟩, ?_⟩
  cases P with
  | chain h => exact absurd rfl (notChain h)
  | free => exact .inl rfl
  | idxEnd => exact .inr (.inl rfl)
  | datEnd => exact .inr (.inr rfl)

/-- The chain has no byte in common with what is locked under it. -/
theorem chain_apart {key : Bytes} {type : LockType} {P : Place} (notChain : ∀ h, P ≠ .chain h)
    (real : P.Real) :
    ∀ l ∈ chainHeld key type, l.file = P.file → l.range.overlaps P.range = false := by
  intro l member sameFile
  rw [List.mem_singleton.1 member] at sameFile ⊢
  exact (keyPlace_real key).apart real (fun same => notChain _ same.symm) sameFile

namespace Locking

variable {α : Type} {chainoff : Nat} {key : Bytes}

theorem lockFree (error : Err) :
    Locking chainoff (chainHeld key .write) (Place.free.lock .write :: chainHeld key .write)
      (writewLock .idx freeOff 1 error) :=
  lockReg (mayWait_chain (by simp))

theorem unlockFree (error : Err) :
    Locking chainoff (Place.free.lock .write :: chainHeld key .write) (chainHeld key .write)
      (Db.unLock .idx freeOff 1 error) :=
  unLock (chain_apart (P := .free) (by simp) trivial)

theorem appendDat (data : Bytes) :
    Locking chainoff (chainHeld key .write) (chainHeld key .write)
      (dbWritedat data 0 .fromEnd) := by
  refine writedat fun _ => ⟨mayWait_chain (by simp), fun l member => ?_⟩
  rw [List.mem_singleton.1 member]
  simp [Place.lock, keyPlace, Place.file]

theorem appendIdx (key' : Bytes) (ptrval : Int) :
    Locking chainoff (chainHeld key .write) (chainHeld key .write)
      (dbWriteidx key' 0 .fromEnd ptrval) :=
  writeidx fun _ => ⟨mayWait_chain (by simp), chain_apart (P := .idxEnd) (by simp) trivial⟩

theorem dodeleteWrites {held : Held} : Locking chainoff held held Db.dodeleteWrites := by
  refine get fun _ _ => .bind (writedat (by simp)) fun _ => .bind (readptr _) fun _ =>
    get fun _ _ => ?_
  refine .bind (writeidx (by simp)) fun _ => get fun _ _ => ?_
  exact .bind (writeptr ..) fun _ => writeptr ..

theorem dodelete : Locking chainoff (chainHeld key .write) (chainHeld key .write) dbDodelete := by
  refine .bind (modified fun _ here => ⟨here.1, here.2, here.3⟩) fun _ =>
    .bind (lockFree _) fun _ => ?_
  exact .bind dodeleteWrites fun _ => unlockFree _

theorem findfree (keylen datlen : Int) :
    Locking chainoff (chainHeld key .write) (chainHeld key .write) (dbFindfree keylen datlen) := by
  refine .bind (lockFree _) fun _ => .bind (readptr _) fun offset =>
    .bind (loop (fun state => ?_) _) fun found => ?_
  · refine .ite (.pure _) (.bind (readidx _) fun _ => get fun _ _ => ?_)
    exact .ite (.pure _) (.pure _)
  · refine .bind (.ite (.pure _) (get fun _ _ => ?_)) fun _ => .bind (unlockFree _) fun _ => .pure _
    exact .bind (writeptr ..) fun _ => .pure _

theorem storeAppend (data : Bytes) (ptrval : Int) :
    Locking chainoff (chainHeld key .write) (chainHeld key .write)
      (Db.storeAppend key data ptrval) :=
  .bind (appendDat _) fun _ => .bind (appendIdx ..) fun _ => get fun _ _ => writeptr ..

theorem storeReuse (data : Bytes) (ptrval : Int) :
    Locking chainoff (chainHeld key .write) (chainHeld key .write)
      (Db.storeReuse key data ptrval) := by
  refine get fun _ _ => .bind (writedat (by simp)) fun _ => get fun _ _ => ?_
  exact .bind (writeidx (by simp)) fun _ => get fun _ _ => writeptr ..

theorem storeNew (data : Bytes) (keylen datlen : Int) :
    Locking chainoff (chainHeld key .write) (chainHeld key .write)
      (dbStoreNew key data keylen datlen) := by
  refine get fun _ _ => .bind (readptr _) fun _ => .bind (findfree ..) fun _ => .ite ?_ ?_
  · exact .bind (storeAppend ..) fun _ => modified fun _ here => ⟨here.1, here.2, here.3⟩
  · exact .bind (storeReuse ..) fun _ => modified fun _ here => ⟨here.1, here.2, here.3⟩

theorem storeOld (data : Bytes) (datlen : Int) :
    Locking chainoff (chainHeld key .write) (chainHeld key .write)
      (dbStoreOld key data datlen) := by
  refine get fun _ _ => .ite ?_ ?_
  · refine .bind dodelete fun _ => get fun _ _ => .bind (readptr _) fun _ => .bind (storeAppend ..)
      fun _ => ?_
    exact modified fun _ here => ⟨here.1, here.2, here.3⟩
  · refine .bind (writedat (by simp)) fun _ => ?_
    exact modified fun _ here => ⟨here.1, here.2, here.3⟩

theorem unlockChain {type : LockType} (error : Err) :
    Locking (chainOff (dbHash nhashDef key)) (chainHeld key type) [] (Db.unlockChain error) := by
  refine get fun db here => ?_
  rw [here.chain]
  exact unLock (by simp)

theorem fetchFound {held : Held} (found : Int) :
    Locking chainoff held held (Db.fetchFound found) := by
  refine .ite (.bind (modified fun _ here => ⟨here.1, here.2, here.3⟩) fun _ => .pure _)
    (.bind readdat fun _ => ?_)
  exact .bind (modified fun _ here => ⟨here.1, here.2, here.3⟩) fun _ => .pure _

theorem deleteFound (found : Int) :
    Locking chainoff (chainHeld key .write) (chainHeld key .write) (Db.deleteFound found) := by
  refine .ite (.bind dodelete fun _ => ?_) ?_
  · exact .bind (modified fun _ here => ⟨here.1, here.2, here.3⟩) fun _ => .pure _
  · exact .bind (modified fun _ here => ⟨here.1, here.2, here.3⟩) fun _ => .pure _

theorem storeFound (data : Bytes) (keylen datlen flag found : Int) :
    Locking chainoff (chainHeld key .write) (chainHeld key .write)
      (Db.storeFound key data keylen datlen flag found) := by
  refine .ite (.ite ?_ (.bind (storeNew ..) fun _ => .pure _))
    (.ite ?_ (.bind (storeOld ..) fun _ => .pure _))
  · exact .bind (modified fun _ here => ⟨here.1, here.2, here.3⟩) fun _ => .pure _
  · exact .bind (modified fun _ here => ⟨here.1, here.2, here.3⟩) fun _ => .pure _

/-- `_db_find_and_lock` from the lock on. -/
theorem lockChain (writelock : Bool) :
    Locking (chainOff (dbHash nhashDef key))
      [] (chainHeld key (if writelock then .write else .read))
      (Db.lockChain writelock) := by
  refine get fun db here => ?_
  rw [here.chain]
  cases writelock <;> exact lockReg (.inl rfl)

end Locking

/-! ## Operations -/

/-- The operation can be called with no lock held, and returns so. -/
structure Quiet {α : Type} (m : DbM α) : Prop where
  keeps : ∀ db, db.nhash = nhashDef → db.hashoff = hashOff →
    lockOrder.Keeps [] m db fun _ db' now => now = [] ∧ db'.nhash = nhashDef ∧ db'.hashoff = hashOff

namespace Quiet

variable {α β : Type} {key : Bytes}

theorem of_locking {m : DbM α} (locking : ∀ chainoff, Locking chainoff [] [] m) : Quiet m := by
  refine ⟨fun db nhash hashoff => ?_⟩
  refine ((locking db.chainoff).keeps db ⟨nhash, hashoff, rfl⟩).weaken ?_
  rintro _ db' _ ⟨nothing, here⟩
  exact ⟨nothing, here.nhash, here.hashoff⟩

theorem findAndLock (writelock : Bool) {db : DB} (nhash : db.nhash = nhashDef)
    (hashoff : db.hashoff = hashOff) :
    lockOrder.Keeps [] (dbFindAndLock key writelock) db fun _ db' now =>
      now = chainHeld key (if writelock then .write else .read) ∧
        OnChain (chainOff (dbHash nhashDef key)) db' := by
  refine .bind (.modified (Q := fun _ db' now => now = [] ∧
    OnChain (chainOff (dbHash nhashDef key)) db') ?_) ?_
  · exact ⟨rfl, nhash, hashoff, by simp only [nhash, hashoff]⟩
  · rintro - db' - ⟨rfl, here⟩
    refine Locking.keeps ?_ db' here
    refine .bind (.lockChain writelock) fun _ => .get fun _ _ => .bind (.readptr _) fun _ => ?_
    refine .bind (.loop (fun offset => ?_) _) fun _ => .pure _
    refine .ite (.pure _) (.bind (.readidx _) fun _ => .get fun _ _ => .ite (.pure _) ?_)
    exact .bind (.modified fun _ here => ⟨here.1, here.2, here.3⟩) fun _ => .pure _

/-- `_db_find_and_lock` and what follows it, up to the unlocking of the chain. -/
theorem of_findAndLock {writelock : Bool} {f : Int → DbM α}
    (rest : ∀ found, Locking (chainOff (dbHash nhashDef key))
    (chainHeld key (if writelock then .write else .read)) []
      (f found)) : Quiet (dbFindAndLock key writelock >>= f) := by
  refine ⟨fun db nhash hashoff => (findAndLock writelock nhash hashoff).bind ?_⟩
  rintro found db' - ⟨rfl, here⟩
  refine ((rest found).keeps db' here).weaken ?_
  rintro - db'' - ⟨rfl, here'⟩
  exact ⟨rfl, here'.nhash, here'.hashoff⟩

theorem map {m : DbM α} {g : α → β} (quiet : Quiet m) : Quiet (do pure (g (← m))) :=
  ⟨fun db nhash hashoff => (quiet.keeps db nhash hashoff).bind fun _ _ _ kept => .pure kept⟩

theorem fetch (key : Bytes) : Quiet (dbFetch key) :=
  of_findAndLock fun _ => .bind (.fetchFound _) fun _ => .bind (.unlockChain _) fun _ => .pure _

theorem delete (key : Bytes) : Quiet (dbDelete key) :=
  of_findAndLock fun _ => .bind (.deleteFound _) fun _ => .bind (.unlockChain _) fun _ => .pure _

theorem store (key data : Bytes) (flag : Int) : Quiet (dbStore key data flag) := by
  unfold dbStore
  split
  · exact of_locking fun _ => .pure _
  · dsimp only
    split
    · exact of_locking fun _ => .abort _
    · exact of_findAndLock fun _ => .bind (.storeFound ..) fun _ => .bind (.unlockChain _)
        fun _ => .pure _

theorem rewind : Quiet dbRewind := by
  refine of_locking fun _ => .get fun _ _ => .bind (.lseek ..) fun _ => ?_
  exact .modified fun _ here => ⟨here.1, here.2, here.3⟩

theorem nextrec : Quiet dbNextrec := by
  refine of_locking fun _ => .bind (.lockReg (.inl rfl)) fun _ => .bind (.loop (fun _ => ?_) _)
    fun found => ?_
  · exact .bind (.readidx _) fun _ => .ite (.pure _) (.get fun _ _ => .ite (.pure _) (.pure _))
  · refine .bind (.ite (.get fun _ _ => .bind .readdat fun _ => ?_) (.pure _)) fun _ =>
      .bind (.unLock (by simp)) fun _ => .pure _
    exact .bind (.modified fun _ here => ⟨here.1, here.2, here.3⟩) fun _ => .pure _

theorem close (file : File) : Quiet (Db.close file) :=
  of_locking fun _ => ⟨fun _ here => .call trivial fun _ _ moved => ⟨moved, here⟩⟩

theorem bind {m : DbM α} {f : α → DbM β} (first : Quiet m) (second : ∀ value, Quiet (f value)) :
    Quiet (m >>= f) := by
  refine ⟨fun db nhash hashoff => (first.keeps db nhash hashoff).bind ?_⟩
  rintro value db' - ⟨rfl, nhash', hashoff'⟩
  exact (second value).keeps db' nhash' hashoff'

theorem free (idxfd datfd : Bool) : Quiet (dbFree idxfd datfd) := by
  cases idxfd <;> cases datfd
  · exact of_locking fun _ => .pure _
  · exact close .dat
  · exact .bind (close .idx) fun _ => of_locking fun _ => .pure _
  · exact .bind (close .idx) fun _ => close .dat

theorem init : Quiet dbInit := by
  refine of_locking fun _ => .bind (.lockReg (.inl rfl)) fun _ => ?_
  refine .bind (.plain (.fstat .idx) (fun _ => trivial) fun _ _ _ same =>
    same) fun (_ : Nat) => .ite ?_ ?_
  · exact .bind (.write ..) fun _ => .unLock (by simp)
  · exact .unLock (by simp)

theorem openFile (file : File) (creat trunc : Bool) : Quiet (Db.openFile file creat trunc) :=
  of_locking fun _ => .plain (.openFile file creat trunc) (fun _ => trivial) fun _ _ _ same => same

theorem ite {c : Prop} [Decidable c] {m n : DbM α} (yes : Quiet m) (no : Quiet n) :
    Quiet (if c then m else n) := by
  split
  · exact yes
  · exact no

theorem pure (value : α) : Quiet (Pure.pure value : DbM α) := of_locking fun _ => .pure value

/-- `db_open` does not look at the structure it is called on. -/
theorem opened (oflag : Oflag) (db : DB) : lockOrder.Keeps [] (dbOpen oflag) db fun _ db' now =>
    now = [] ∧ db'.nhash = nhashDef ∧ db'.hashoff = hashOff := by
  refine .bind (.set (N := ({} : DB)) (Q := fun _ db' now => now = [] ∧ db' = {}) ⟨rfl, rfl⟩) ?_
  rintro - _ - ⟨rfl, rfl⟩
  refine keeps ?_ {} rfl rfl
  refine .bind (openFile ..) fun _ => .bind (openFile ..) fun _ =>
    .ite (.bind (free ..) fun _ => .pure _) (.ite ?_ ?_)
  · exact .bind init fun _ => .bind rewind fun _ => .pure _
  · exact .bind rewind fun _ => .pure _

end Quiet

/-- Between two operations a process holds no lock. -/
def atRest (handle : Option DB) (held : Held) : Prop :=
  held = [] ∧ ∀ db, handle = some db → db.nhash = nhashDef ∧ db.hashoff = hashOff

theorem dbCode_follows {op : Op} {handle : Option DB} {held : Held} (rest : atRest handle held) :
    lockOrder.Follows held (dbCode op handle) fun result held' => atRest result.2 held' := by
  obtain ⟨rfl, table⟩ := rest
  have fields : (handle.getD {}).nhash = nhashDef ∧ (handle.getD {}).hashoff = hashOff := by
    cases handle with
    | none => exact ⟨rfl, rfl⟩
    | some db => exact table db rfl
  have called : lockOrder.Keeps [] (dbCall op) (handle.getD {}) fun _ db' now =>
      now = [] ∧ db'.nhash = nhashDef ∧ db'.hashoff = hashOff := by
    cases op with
    | «open» oflag => exact (Quiet.opened oflag _).bind fun _ _ _ kept => .pure kept
    | fetch key => exact (Quiet.fetch key).map.keeps _ fields.1 fields.2
    | store key data flag => exact (Quiet.store key data flag.code).map.keeps _ fields.1 fields.2
    | delete key => exact (Quiet.delete key).map.keeps _ fields.1 fields.2
    | rewind => exact (Quiet.rewind.bind fun _ => .pure _).keeps _ fields.1 fields.2
    | nextrec => exact Quiet.nextrec.map.keeps _ fields.1 fields.2
  refine Checker.Follows.bind called ?_
  rintro ⟨res, db⟩ - ⟨rfl, nhash, hashoff⟩
  refine .ret ⟨rfl, fun db' same => ?_⟩
  rw [handleAfter_some same]
  exact ⟨nhash, hashoff⟩

/-! ## Interleavings -/

variable {ι : Type}

/-- The locks the process has in the table. -/
def holds (p : ι) (held : Held) (w : World ι File) : Prop := ∀ l, (p, l) ∈ w.locks ↔ l ∈ held

/-- A request under `MayWait` touches nothing the process holds. -/
theorem MayWait.apart {held : Held} {l : Lock File} (may : MayWait held l) :
    ∀ m ∈ held, m.file = l.file → m.range.overlaps l.range = false := by
  intro m member sameFile
  rcases may with rfl | ⟨⟨h, real, rfl⟩, asked⟩
  · simp at member
  · rw [List.mem_singleton.1 member] at sameFile ⊢
    have chain : (Place.chain h).Real := real
    rcases asked with rfl | rfl | rfl <;> exact chain.apart trivial (by simp) sameFile

theorem holds_step [DecidableEq ι] {p : ι} {held : Held} {w w' : World ι File} {c : FileCall File}
    {answer : FileCall.Answer c}
    (related : holds p held w) (guard : lockOrder.guard held c)
    (answers : fileKernel p c w = some (answer, w')) :
    ∃ held', lockOrder.next held c answer held' ∧ holds p held' w' := by
  cases c with
  | setlkw file type range =>
    obtain ⟨may, inhabited⟩ := guard
    refine ⟨_, rfl, fun l => ?_⟩
    simp only [fileKernel] at answers
    split at answers
    · cases answers
    · cases answers
      have apart (m : Lock File) (mine : (p, m) ∈ w.locks) (sameFile : m.file = file) :
          m.range.overlaps range = false :=
        may.apart m ((related m).1 mine) sameFile
      have kept : (p, l) ∈ w.locks.release p file range ↔ (p, l) ∈ w.locks ∧
          ¬(l.file = file ∧ l.range = range) :=
        Locks.mem_release_self inhabited fun m mine sameFile touch =>
          absurd touch (by simp [apart m mine sameFile])
      simp only [Locks.acquire, List.mem_cons, Prod.mk.injEq, true_and, kept, related l]
      refine or_congr_right ⟨And.left, fun member => ⟨member, fun same => ?_⟩⟩
      have := apart l ((related l).2 member) same.1
      rw [same.2, inhabited] at this
      cases this
  | unlock file range =>
    obtain ⟨inhabited, whole⟩ := guard
    refine ⟨_, rfl, fun l => ?_⟩
    cases answers
    have kept : (p, l) ∈ w.locks.release p file range ↔ (p, l) ∈ w.locks ∧
        ¬(l.file = file ∧ l.range = range) :=
      Locks.mem_release_self inhabited fun m mine sameFile touch => whole m ((related m).1 mine)
        sameFile touch
    simp only [kept, related l, List.mem_filter, decide_eq_true_eq]
  | close file =>
    refine ⟨_, rfl, fun l => ?_⟩
    cases answers
    simp [Locks.releaseFile, related l]
  | openFile file creat trunc =>
    refine ⟨_, rfl, ?_⟩
    simp only [fileKernel] at answers
    split at answers <;> cases answers <;> exact related
  | lseek file offset whence =>
    refine ⟨_, rfl, ?_⟩
    simp only [fileKernel] at answers
    split at answers <;> cases answers <;> exact related
  | _ =>
    cases answers
    exact ⟨_, rfl, related⟩

theorem lockOrder_sound [DecidableEq ι] (may : ι → Op → Prop) :
    lockOrder.Sound (dbSystem may) (fun _ => True) holds (fun p w => ∀ l, (p, l) ∉ w.locks) where
  step _ related guard answers := ⟨trivial, holds_step related guard answers⟩
  others _ _ answers other :=
    ⟨fun _ related l => (fileKernel_locks_other answers other).trans (related l),
      fun gone l => mt (fileKernel_locks_other answers other).1 (gone l)⟩
  exit _ := ⟨trivial, fun l => by simp [dbSystem, World.exit, Locks.releaseAll]⟩
  exitOthers other := by
    refine ⟨fun _ related l => ?_, fun gone l => ?_⟩
    · simpa [dbSystem, World.exit, Locks.releaseAll, other] using related l
    · simpa [dbSystem, World.exit, Locks.releaseAll, other] using gone l

/-- The states the locking order keeps to. -/
abbrev Ordered (c : DbConfig ι) : Prop :=
  lockOrder.Followed (fun _ => True) holds (fun p w => ∀ l, (p, l) ∉ w.locks) atRest c

theorem startOn_ordered {w : World ι File} (unlocked : w.locks = []) : Ordered (startOn w) :=
  ⟨trivial, fun _ => ⟨[], ⟨rfl, by simp⟩, fun l => by simp [startOn, unlocked]⟩⟩

theorem run_ordered [DecidableEq ι] {may : ι → Op → Prop} {along : DbConfig ι → Prop}
    {w : World ι File}
    {c : DbConfig ι} {history : List (DbEvent ι)} (unlocked : w.locks = [])
    (run : Run (dbSystem may) along (startOn w) history c) : Ordered c :=
  run.invariant (startOn_ordered unlocked) fun _ _ _ _ ordered last =>
    ordered.step (lockOrder_sound may) (fun _ _ _ _ _ rest => dbCode_follows rest) last

/-- `p` waits for a record lock that `q` holds. -/
def WaitsFor (c : DbConfig ι) (p q : ι) : Prop :=
  ∃ op file type range next m, c.procs p = .busy op (.call (.setlkw file type range) next) ∧
    (q, m) ∈ c.world.locks ∧ q ≠ p ∧ (⟨file, type, range⟩ : Lock File).conflicts m = true

section Ordered

variable {c : DbConfig ι} {p q r : ι} {m : Lock File}

theorem Ordered.inside (ordered : Ordered c) (held : (p, m) ∈ c.world.locks) : c.Inside p := by
  have here := ordered.2 p
  unfold Config.Inside
  cases now : c.procs p with
  | idle handle =>
    simp only [now] at here
    obtain ⟨t, ⟨rfl, _⟩, related⟩ := here
    simpa using (related m).1 held
  | busy op rest => exact ⟨op, rest, rfl⟩
  | stopped error =>
    simp only [now] at here
    exact absurd held (here.1 m)

/-- A process that is inside an operation and cannot move waits for another. -/
theorem waits_of_stuck [DecidableEq ι] {may : ι → Op → Prop} (inside : c.Inside p)
    (stuck : ∀ events c', ¬Step (dbSystem may) p c events c') :
    ∃ q, WaitsFor c p q := by
  obtain ⟨op, rest, busy⟩ := inside
  cases rest with
  | ret result => exact absurd (.respond busy) (stuck _ _)
  | abort error => exact absurd (.stop busy) (stuck _ _)
  | loop body state next => exact absurd (.loop busy) (stuck _ _)
  | call request next =>
    by_contra nobody
    have moves : (fileKernel p request c.world).isSome := by
      refine fileKernel_isSome fun file type range same => ?_
      subst same
      by_contra waits
      rw [Bool.not_eq_false, Locks.blocked_iff] at waits
      obtain ⟨q, m, held, other, conflict⟩ := waits
      exact nobody ⟨q, op, file, type, range, next, m, busy, held, other, conflict⟩
    obtain ⟨⟨answer, world⟩, answers⟩ := Option.isSome_iff_exists.1 moves
    exact stuck _ _ (.call busy answers)

/-- Whatever a waiting process holds is the write lock of a chain, and then it waits for something
else. -/
theorem Ordered.waiting (ordered : Ordered c) {op : Op} {file : File} {type : LockType}
    {range : Range}
    {next : Bool → Prog (FileSig File) Err (Res × Option DB)}
    (busy : c.procs p = .busy op (.call (.setlkw file type range) next))
    (held : (p, m) ∈ c.world.locks) :
    (∃ h < nhashDef, m = (Place.chain h).lock .write) ∧
      ∃ place : Place, place.Real ∧ (∀ h, place ≠ .chain h) ∧
        (⟨file, type, range⟩ : Lock File) = place.lock .write := by
  have here := ordered.2 p
  rw [busy] at here
  obtain ⟨t, related, follows⟩ := here
  have member : m ∈ t := (related m).1 held
  rcases follows.of_call.1.1 with rfl | ⟨⟨h, real, rfl⟩, asked⟩
  · simp at member
  · refine ⟨⟨h, real, List.mem_singleton.1 member⟩, ?_⟩
    rcases asked with asked | asked | asked
    · exact ⟨.free, trivial, by simp, asked⟩
    · exact ⟨.idxEnd, trivial, by simp, asked⟩
    · exact ⟨.datEnd, trivial, by simp, asked⟩

/-- Nobody waits for a process that waits for a process that waits. -/
theorem Ordered.wait_bound (ordered : Ordered c) {s : ι} (first : WaitsFor c p q)
    (second : WaitsFor c q r) :
    ¬WaitsFor c r s := by
  rintro ⟨_, _, _, _, _, _, busyR, _⟩
  obtain ⟨_, _, _, _, _, _, _, heldQ, _, _⟩ := first
  obtain ⟨_, _, _, _, _, m, busyQ, heldR, _, conflict⟩ := second
  obtain ⟨_, place, real, notChain, asked⟩ := ordered.waiting busyQ heldQ
  obtain ⟨⟨h, realH, rfl⟩, _⟩ := ordered.waiting busyR heldR
  have realR : (Place.chain h).Real := realH
  rw [asked, Place.conflicts_iff real realR] at conflict
  exact notChain h conflict.1

end Ordered

/-- No deadlock: whatever the files contain at the start, in every state that any number of
processes reach, if some process is inside a call then some process inside a call can take its next
step, and no process waits, through others, for itself. -/
theorem no_deadlock [DecidableEq ι] {may : ι → Op → Prop} {w : World ι File} {c : DbConfig ι}
    {history : List (DbEvent ι)} (unlocked : w.locks = [])
    (run : Run (dbSystem may) (fun _ => True) (startOn w) history c) :
    ((∃ p, c.Inside p) → ∃ p events c', c.Inside p ∧ Step (dbSystem may) p c events c') ∧
      ∀ p, ¬Relation.TransGen (WaitsFor c) p p := by
  have ordered := run_ordered unlocked run
  constructor
  · rintro ⟨p, inside⟩
    by_contra! stuck
    have waits (p : ι) (inside : c.Inside p) : ∃ q, WaitsFor c p q ∧ c.Inside q := by
      obtain ⟨q, waits⟩ := waits_of_stuck inside fun events c' => stuck p events c' inside
      have := waits
      obtain ⟨_, _, _, _, _, _, _, held, _⟩ := this
      exact ⟨q, waits, ordered.inside held⟩
    obtain ⟨q, first, inside⟩ := waits p inside
    obtain ⟨r, second, inside⟩ := waits q inside
    obtain ⟨s, third, _⟩ := waits r inside
    exact ordered.wait_bound first second third
  · -- a cycle can be walked round as often as one likes, so three steps along it are there
    have turn (p : ι) (cycle : Relation.TransGen (WaitsFor c) p p) :
        ∃ q, WaitsFor c p q ∧ Relation.TransGen (WaitsFor c) q q := by
      obtain ⟨q, waits, back⟩ := Relation.TransGen.head'_iff.1 cycle
      exact ⟨q, waits, Relation.TransGen.tail'_iff.2 ⟨p, back, waits⟩⟩
    intro p cycle
    obtain ⟨q, first, cycle⟩ := turn p cycle
    obtain ⟨r, second, cycle⟩ := turn q cycle
    obtain ⟨s, third, _⟩ := turn r cycle
    exact ordered.wait_bound first second third

/-- What the call of a process waits for: a lock, and who has a lock in conflict with it. -/
def blockedBy (c : DbConfig Bool) (p q : Bool) : Bool :=
  match c.procs p with
  | .busy _ (.call (.setlkw file type range) _) => c.world.locks.any fun (holder, m) =>
      holder == q && q != p && (⟨file, type, range⟩ : Lock File).conflicts m
  | _ => false

/-- One process is inside `db_store` with its chain locked, and the other waits for that chain in
`db_fetch`. -/
theorem no_deadlock_waiting : ∃ (history : List (DbEvent Bool)) (c : DbConfig Bool),
    Run (dbSystem fun _ _ => True) (fun _ => True) (startOn .absent) history c ∧
      WaitsFor c false true ∧
      (∃ p events c', c.Inside p ∧ Step (dbSystem fun _ _ => True) p c events c') ∧
        ¬Relation.TransGen (WaitsFor c) false false := by
  have ran : ((startOn .absent : DbConfig Bool).follow (dbSystem fun _ _ => True) (fun _ => True)
      ((true, some (.open ⟨true, true⟩)) :: List.replicate 12 (true, none) ++
        (true, some (.store [97] [120] .insert)) :: (true, none) ::
        (false, some (.open ⟨false, false⟩)) :: List.replicate 5 (false, none) ++
          [(false, some (.fetch [97]))])).any
        (fun (_, c) => blockedBy c false true) = true := by
    decide +kernel
  obtain ⟨⟨history, c⟩, follows, blocked⟩ := (Option.any_eq_true _ _).mp ran
  have run := Config.follow_run follows trivial
  have waits : WaitsFor c false true := by
    simp only [blockedBy] at blocked
    split at blocked
    case h_1 op file type range next busy =>
      obtain ⟨⟨holder, m⟩, held, conflict⟩ := List.any_eq_true.1 blocked
      simp only [Bool.and_eq_true, beq_iff_eq, bne_iff_ne] at conflict
      obtain ⟨⟨rfl, other⟩, conflict⟩ := conflict
      exact ⟨op, file, type, range, next, m, busy, held, other, conflict⟩
    case h_2 => cases blocked
  have inside : c.Inside false := by
    obtain ⟨op, file, type, range, next, -, busy, -⟩ := waits
    exact ⟨op, _, busy⟩
  obtain ⟨moves, acyclic⟩ := no_deadlock rfl run
  exact ⟨history, c, run, waits, moves ⟨false, inside⟩, acyclic false⟩

end Apue.Db
