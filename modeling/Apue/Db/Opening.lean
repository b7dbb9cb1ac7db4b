import Apue.Db.Session

/-! # Opening a database that may not be there

`db_open` initializes the files when it is called with `O_CREAT` and `O_TRUNC`.  With `O_CREAT`
alone it creates them and leaves them empty, and the handle it returns has no table of chain
pointers to read.
-/

namespace Apue.Db

open Apue.Base

/-! ## Reading chain pointers -/

/-- The errors of `_db_readptr`. -/
def Err.ofReadptr : Err → Bool
  | .readptrLseek | .readptrRead => true
  | _ => false

/-- Follows the offset of the index file from an `lseek` to the `read` after it, on an index file
that has its table and that nobody truncates. -/
def tableReads : Checker (FileSig File) Err (Option Nat) where
  guard _
    | .openFile _ _ trunc => trunc = false
    | _ => True
  next offset c answer offset' := match c, answer with
    | .lseek .idx target .set, result =>
      0 ≤ target → Option.isSome (α := Nat) result ∧ offset' = some target.toNat
    | .read .idx count, buffer =>
      ∀ n, offset = some n → n + count ≤ recordsOff → List.length (α := UInt8) buffer = count
    | _, _ => True
  stops _ error := error.ofReadptr = false

/-- Started on a structure with `I`, the code ends on one, and does not stop in `_db_readptr`. -/
abbrev InTable (I : DB → Prop) {α : Type} (m : DbM α) : Prop :=
  tableReads.Preserves (fun db _ => I db) m

namespace InTable

open Checker (Preserves)

variable {α β σ : Type} {I : DB → Prop} {error : Err}

theorem abort (other : error.ofReadptr = false) : InTable I (Code.abort error : DbM α) :=
  Preserves.abort fun _ _ _ => other

theorem modified {f : DB → DB} (kept : ∀ db, I db → I (f db)) : InTable I (modify f : DbM PUnit) :=
  Preserves.modified fun db _ => kept db

theorem get {f : DB → DbM α} (second : ∀ db, I db → InTable I (f db)) :
    InTable I (MonadState.get >>= f) := by
  refine ⟨fun {db t} holds => ?_⟩
  refine .bind (M := fun value db' _ => value = db ∧
    db' = db) (.get ⟨rfl, rfl⟩) fun value db' t' same => ?_
  obtain ⟨rfl, rfl⟩ := same
  exact (second _ holds).keeps holds

theorem sys {c : FileCall File} (may : tableReads.guard none c) : InTable I (Db.sys c) := by
  refine Preserves.call (fun _ t _ => ?_) fun _ _ _ _ holds _ => holds
  cases c <;> exact may

theorem lseek (file : File) (offset : Int) (whence : Whence) (other : error.ofReadptr = false) :
    InTable I (Db.lseek file offset whence error) := by
  refine .bind (sys trivial) fun result => ?_
  cases result with
  | none => exact abort other
  | some offset => exact .pure offset

theorem read (file : File) (count : Nat) : InTable I (Db.read file count) := sys trivial

theorem write (file : File) (buffer : Bytes) (other : error.ofReadptr = false) :
    InTable I (Db.write file buffer error) :=
  .bind (sys trivial) fun (_ : Nat) => .ite (.pure _) (abort other)

theorem lockReg (file : File) (type : LockType) (offset len : Nat)
    (other : error.ofReadptr = false) :
    InTable I (Db.lockReg file type offset len error) :=
  .bind (sys trivial) fun (_ : Bool) => .ite (.pure _) (abort other)

theorem unLock (file : File) (offset len : Nat) (other : error.ofReadptr = false) :
    InTable I (Db.unLock file offset len error) :=
  .bind (sys trivial) fun (_ : Bool) => .ite (.pure _) (abort other)

/-- A pointer of the table is there. -/
theorem readptr {offset : Int} (nonneg : 0 ≤ offset) (inside : offset + ptrSz ≤ recordsOff) :
    InTable I (dbReadptr offset) := by
  refine ⟨fun {db t} holds => .bind (M := fun _ db' t' => db' = db ∧ t' = some offset.toNat) ?_
    fun _ db' t' same => ?_⟩
  · refine .bind (M := fun result db' t' => Option.isSome (α := Nat) result ∧ db' = db ∧
      t' = some offset.toNat)
      (.call trivial fun result t' moved => ?_) fun result db' t' same => ?_
    · obtain ⟨there, atOffset⟩ := moved nonneg
      exact ⟨there, rfl, atOffset⟩
    · obtain ⟨there, rfl, rfl⟩ := same
      cases result with
      | none => cases there
      | some result => exact .pure ⟨rfl, rfl⟩
  · obtain ⟨rfl, rfl⟩ := same
    refine .bind (M := fun buffer db'' _ => List.length (α := UInt8) buffer = ptrSz ∧
      db'' = db') (.call trivial fun buffer t' moved => ?_)
      fun buffer db'' t' same => ?_
    · exact ⟨moved offset.toNat rfl (by omega), rfl⟩
    · obtain ⟨length, rfl⟩ := same
      rw [if_neg (not_not_intro length)]
      exact .pure holds

end InTable

/-- A handle whose chain pointer, once it has one, is in the table. -/
structure OnTable (db : DB) : Prop where
  nhash : db.nhash = nhashDef
  hashoff : db.hashoff = hashOff
  chainoff : db.chainoff + ptrSz ≤ recordsOff

namespace InTable

variable {α : Type} {I : DB → Prop}

theorem change {f : DB → DB}
    (same : ∀ db, (f db).nhash = db.nhash ∧ (f db).hashoff = db.hashoff ∧
    (f db).chainoff = db.chainoff) :
    InTable OnTable (modify f : DbM PUnit) := by
  refine modified fun db table => ?_
  obtain ⟨nhash, hashoff, chainoff⟩ := same db
  exact ⟨nhash.trans table.nhash,
    hashoff.trans table.hashoff, by rw [chainoff]; exact table.chainoff⟩

/-! ### Reading -/

theorem readidx (offset : Int) : InTable OnTable (dbReadidx offset) := by
  refine .bind (lseek _ _ _ rfl) fun _ => .bind (change fun _ => ⟨rfl, rfl, rfl⟩) fun _ =>
    .bind (read _ _) fun iov => ?_
  refine .ite ?_ (.ite (.pure _) (abort rfl))
  refine .bind (change fun _ => ⟨rfl, rfl, rfl⟩) fun _ =>
    .ite (abort rfl) (.bind (read _ _) fun idxbuf => .ite (abort rfl) ?_)
  cases parsed : parseIdxbuf idxbuf with
  | error error =>
    have ofReadidx := parseIdxbuf_error parsed
    refine abort ?_
    cases error <;> first | rfl | cases ofReadidx
  | ok fields => exact .bind (change fun _ => ⟨rfl, rfl, rfl⟩) fun _ => .pure _

theorem readdat : InTable OnTable dbReaddat := by
  refine get fun _ _ => .bind (lseek _ _ _ rfl) fun _ => .bind (read _ _) fun _ =>
    .ite (abort rfl) (.ite (abort rfl) ?_)
  exact .bind (change fun _ => ⟨rfl, rfl, rfl⟩) fun _ => .pure _

theorem lockChain (writelock : Bool) : InTable I (Db.lockChain writelock) :=
  get fun _ _ => .ite (lockReg _ _ _ _ rfl) (lockReg _ _ _ _ rfl)

theorem findAndLock (key : Bytes) (writelock : Bool) :
    InTable OnTable (dbFindAndLock key writelock) := by
  -- the pointer read first is the one of the chain
  let Start (db : DB) : Prop := OnTable db ∧ 0 ≤ db.ptroff ∧ db.ptroff + ptrSz ≤ recordsOff
  have start : InTable Start (Db.lockChain writelock) := lockChain writelock
  refine ⟨fun {db t} table => .bind (M := fun _ db' _ => Start db') (.modified ?_)
    fun _ db₁ t₁ first => ?_⟩
  · have small := dbHash_lt key
    have inTable : dbHash db.nhash key * ptrSz + db.hashoff + ptrSz ≤ recordsOff := by
      rw [table.nhash, table.hashoff]
      simp only [ptrSz, hashOff, recordsOff, nhashDef] at *
      omega
    refine ⟨⟨table.nhash, table.hashoff, inTable⟩, Int.natCast_nonneg _, ?_⟩
    change ((dbHash db.nhash key * ptrSz + db.hashoff : Nat) : Int) + (ptrSz : Nat) ≤
      (recordsOff : Nat)
    exact_mod_cast inTable
  refine .bind (start.keeps first) fun _ db₂ t₂ second => ?_
  refine .bind (M := fun value db' _ => value = db' ∧ Start db')
    (.get ⟨rfl, second⟩) fun _ db₃ t₃ third => ?_
  obtain ⟨rfl, table₃, nonneg, inside⟩ := third
  refine (Checker.Preserves.bind (readptr nonneg inside) fun offset => .bind (.loop ?_ _) fun _ =>
    .pure _).keeps table₃
  intro offset
  refine .ite (.pure _) (.bind (readidx _) fun _ => get fun _ _ => .ite (.pure _) ?_)
  exact .bind (change fun _ => ⟨rfl, rfl, rfl⟩) fun _ => .pure _

theorem unlockChain {error : Err} (other : error.ofReadptr = false) :
    InTable I (Db.unlockChain error) :=
  get fun _ _ => unLock _ _ _ other

theorem fetch (key : Bytes) : InTable OnTable (dbFetch key) := by
  refine .bind (findAndLock _ _) fun _ => .bind (.ite ?_ ?_) fun _ => .bind (unlockChain rfl)
    fun _ => .pure _
  · exact .bind (change fun _ => ⟨rfl, rfl, rfl⟩) fun _ => .pure _
  · exact .bind readdat fun _ => .bind (change fun _ => ⟨rfl, rfl, rfl⟩) fun _ => .pure _

theorem nextrec : InTable OnTable dbNextrec := by
  refine .bind (lockReg _ _ _ _ rfl) fun _ => .bind (.loop (fun _ => ?_) _) fun found => ?_
  · exact .bind (readidx _) fun _ => .ite (.pure _) (get fun _ _ => .ite (.pure _) (.pure _))
  · refine .bind (.ite (get fun _ _ => .bind readdat fun _ => ?_) (.pure _)) fun _ =>
      .bind (unLock _ _ _ rfl) fun _ => .pure _
    exact .bind (change fun _ => ⟨rfl, rfl, rfl⟩) fun _ => .pure _

/-! ### Writing -/

theorem writeptr (offset ptrval : Int) : InTable I (dbWriteptr offset ptrval) :=
  .ite (abort rfl) (.bind (lseek _ _ _ rfl) fun _ => write _ _ rfl)

theorem whenAppending (whence : Whence) {m : DbM Unit} (append : InTable I m) :
    InTable I (Db.whenAppending whence m) :=
  .ite append (.pure _)

theorem writedat (data : Bytes) (offset : Int) (whence : Whence) :
    InTable OnTable (dbWritedat data offset whence) := by
  refine .bind (whenAppending _ (lockReg _ _ _ _ rfl)) fun _ => .bind (lseek _ _ _ rfl) fun _ => ?_
  refine .bind (change fun _ => ⟨rfl, rfl, rfl⟩) fun _ => .bind (write _ _ rfl) fun _ => ?_
  exact whenAppending _ (unLock _ _ _ rfl)

theorem writeidx (key : Bytes) (offset : Int) (whence : Whence) (ptrval : Int) :
    InTable OnTable (dbWriteidx key offset whence ptrval) := by
  refine .bind (change fun _ => ⟨rfl, rfl, rfl⟩) fun _ =>
    .ite (abort rfl) (get fun _ _ => .ite (abort rfl) ?_)
  refine .bind (change fun _ => ⟨rfl, rfl, rfl⟩) fun _ => .ite (abort rfl) (get fun _ _ => ?_)
  refine .bind (whenAppending _ (lockReg _ _ _ _ rfl)) fun _ => .bind (lseek _ _ _ rfl) fun _ => ?_
  refine .bind (change fun _ => ⟨rfl, rfl, rfl⟩) fun _ => .bind (write _ _ rfl) fun _ => ?_
  exact whenAppending _ (unLock _ _ _ rfl)

theorem dodelete : InTable OnTable dbDodelete := by
  refine .bind (change fun _ => ⟨rfl, rfl, rfl⟩) fun _ => .bind (lockReg _ _ _ _ rfl) fun _ =>
    .bind ?_ fun _ => unLock _ _ _ rfl
  refine get fun _ _ => .bind (writedat _ _ _) fun _ => .bind (readptr (by decide) (by decide))
    fun _ => get fun _ _ => ?_
  exact .bind (writeidx _ _ _ _) fun _ => get fun _ _ => .bind (writeptr _ _) fun _ => writeptr _ _

theorem delete (key : Bytes) : InTable OnTable (dbDelete key) := by
  refine .bind (findAndLock _ _) fun _ => .bind (.ite ?_ ?_) fun _ => .bind (unlockChain rfl)
    fun _ => .pure _
  · exact .bind dodelete fun _ => .bind (change fun _ => ⟨rfl, rfl, rfl⟩) fun _ => .pure _
  · exact .bind (change fun _ => ⟨rfl, rfl, rfl⟩) fun _ => .pure _

theorem findfree (keylen datlen : Int) : InTable OnTable (dbFindfree keylen datlen) := by
  refine .bind (lockReg _ _ _ _ rfl) fun _ => .bind (readptr (by decide) (by decide)) fun _ =>
    .bind (.loop ?_ _) fun _ => ?_
  · intro place
    exact .ite (.pure _) (.bind (readidx _) fun _ => get fun _ _ => .ite (.pure _) (.pure _))
  · refine .bind (.ite (.pure _) (get fun _ _ => .bind (writeptr _ _) fun _ => .pure _)) fun _ => ?_
    exact .bind (unLock _ _ _ rfl) fun _ => .pure _

/-- The pointer of the current chain. -/
theorem readChain {db : DB} (table : OnTable db) : InTable OnTable (dbReadptr db.chainoff) :=
  readptr (by simp) (by exact_mod_cast table.chainoff)

theorem storeAppend (key data : Bytes) (ptrval : Int) :
    InTable OnTable (Db.storeAppend key data ptrval) :=
  .bind (writedat _ _ _) fun _ => .bind (writeidx _ _ _ _) fun _ => get fun _ _ => writeptr _ _

theorem storeReuse (key data : Bytes) (ptrval : Int) :
    InTable OnTable (Db.storeReuse key data ptrval) :=
  get fun _ _ => .bind (writedat _ _ _) fun _ => get fun _ _ => .bind (writeidx _ _ _ _) fun _ =>
    get fun _ _ => writeptr _ _

theorem storeNew (key data : Bytes) (keylen datlen : Int) :
    InTable OnTable (dbStoreNew key data keylen datlen) := by
  refine get fun _ table => .bind (readChain table) fun _ => .bind (findfree _ _)
    fun _ => .ite ?_ ?_
  · exact .bind (storeAppend _ _ _) fun _ => change fun _ => ⟨rfl, rfl, rfl⟩
  · exact .bind (storeReuse _ _ _) fun _ => change fun _ => ⟨rfl, rfl, rfl⟩

theorem storeOld (key data : Bytes) (datlen : Int) :
    InTable OnTable (dbStoreOld key data datlen) := by
  refine get fun _ _ => .ite ?_ ?_
  · refine .bind dodelete fun _ => get fun _ table => .bind (readChain table) fun _ =>
      .bind (storeAppend _ _ _) fun _ => ?_
    exact change fun _ => ⟨rfl, rfl, rfl⟩
  · exact .bind (writedat _ _ _) fun _ => change fun _ => ⟨rfl, rfl, rfl⟩

theorem store (key data : Bytes) (flag : Int) : InTable OnTable (dbStore key data flag) := by
  refine .ite (.pure _)
    (.ite (abort rfl) (.bind (findAndLock _ _) fun _ => .bind ?_ fun _ => .bind (unlockChain rfl)
    fun _ => .pure _))
  refine .ite (.ite ?_ ?_) (.ite ?_ ?_)
  · exact .bind (change fun _ => ⟨rfl, rfl, rfl⟩) fun _ => .pure _
  · exact .bind (storeNew _ _ _ _) fun _ => .pure _
  · exact .bind (change fun _ => ⟨rfl, rfl, rfl⟩) fun _ => .pure _
  · exact .bind (storeOld _ _ _) fun _ => .pure _

/-! ### Opening -/

theorem close (file : File) : InTable I (Db.close file) := sys trivial

theorem free (idxfd datfd : Bool) : InTable I (dbFree idxfd datfd) := by
  cases idxfd <;> cases datfd
  · exact .pure _
  · exact close .dat
  · exact .bind (close .idx) fun _ => .pure _
  · exact .bind (close .idx) fun _ => close .dat

theorem init : InTable I dbInit := by
  refine .bind (lockReg _ _ _ _ rfl) fun _ => .bind (sys trivial) fun (_ : Nat) =>
    .ite ?_ (unLock _ _ _ rfl)
  exact .bind (write _ _ rfl) fun _ => unLock _ _ _ rfl

theorem rewind : InTable OnTable dbRewind :=
  get fun _ _ => .bind (lseek _ _ _ rfl) fun _ => change fun _ => ⟨rfl, rfl, rfl⟩

/-- `db_open` does not look at the structure it is called on. -/
theorem opened {oflag : Oflag} (untruncated : oflag.trunc = false) (db : DB) (t : Option Nat) :
    tableReads.Keeps t (dbOpen oflag) db fun _ db' _ => OnTable db' := by
  have new : OnTable {} := ⟨rfl, rfl, by decide⟩
  refine .bind (.set (N := ({} : DB)) (Q := fun _ db' _ => OnTable db') new)
    fun _ db' t' table => ?_
  refine Checker.Preserves.keeps ?_ table
  refine .bind (sys untruncated) fun idxfd => .bind (sys untruncated) fun datfd =>
    .ite (.bind (free _ _) fun _ => .pure _) (.ite ?_ ?_)
  · exact .bind init fun _ => .bind rewind fun _ => .pure _
  · exact .bind rewind fun _ => .pure _

end InTable

/-- What the calls keep of a handle. -/
def onTable (handle : Option DB) (_ : Option Nat) : Prop := ∀ db, handle = some db → OnTable db

theorem dbCode_inTable {op : Op} (untruncated : ∀ oflag, op = .open oflag → oflag.trunc = false)
    {handle : Option DB} {t : Option Nat}
    (table : onTable handle t) :
    tableReads.Follows t (dbCode op handle) fun result t' => onTable result.2 t' := by
  have start : OnTable (handle.getD {}) := by
    cases handle with
    | none => exact ⟨rfl, rfl, by decide⟩
    | some db => exact table db rfl
  have called : tableReads.Keeps t (dbCall op) (handle.getD {}) fun _ db' _ => OnTable db' := by
    cases op with
    | «open» oflag =>
      exact (InTable.opened (untruncated oflag rfl) _ _).bind fun _ _ _ kept => .pure kept
    | fetch key => exact ((InTable.fetch key).bind fun _ => .pure _).keeps start
    | store key data flag =>
      exact ((InTable.store key data flag.code).bind fun _ => .pure _).keeps start
    | delete key => exact ((InTable.delete key).bind fun _ => .pure _).keeps start
    | rewind => exact (InTable.rewind.bind fun _ => .pure _).keeps start
    | nextrec => exact (InTable.nextrec.bind fun _ => .pure _).keeps start
  refine Checker.Follows.bind called fun result t' kept => .ret fun db' same => ?_
  rw [handleAfter_some same]
  exact kept

/-! ## Runs that truncate no file -/

section

variable {ι : Type} [DecidableEq ι]

/-- Where the offset of the index file is, if it is known. -/
def atOffset (p : ι) (offset : Option Nat) (w : World ι File) : Prop :=
  ∀ n, offset = some n → w.pos p .idx = n

theorem tableReads_next {p : ι} {offset : Option Nat} {w w' : World ι File} {c : FileCall File}
    {answer : FileCall.Answer c}
    (table : recordsOff ≤ (w.bytes .idx).length) (related : atOffset p offset w)
    (answers : fileKernel p c w = some (answer, w')) :
    ∃ offset', tableReads.next offset c answer offset' ∧ atOffset p offset' w' := by
  have unknown : atOffset p none w' := fun n impossible => by cases impossible
  cases c with
  | lseek file target whence =>
    cases whence with
    | set =>
      cases file with
      | idx =>
        by_cases nonneg : 0 ≤ target
        · rw [fileKernel, if_neg (by simpa [World.target] using nonneg)] at answers
          cases answers
          refine ⟨some target.toNat, fun _ => ⟨rfl, rfl⟩, fun n same => ?_⟩
          cases same
          simp [World.setPos, World.target]
        · exact ⟨none, fun holds => absurd holds nonneg, unknown⟩
      | dat => exact ⟨none, trivial, unknown⟩
    | cur => exact ⟨none, by cases file <;> trivial, unknown⟩
    | fromEnd => exact ⟨none, by cases file <;> trivial, unknown⟩
  | read file count =>
    cases file with
    | idx =>
      cases answers
      refine ⟨none, fun n known inside => ?_, unknown⟩
      apply readAt_length
      rw [related n known]
      exact inside.trans table
    | dat => exact ⟨none, trivial, unknown⟩
  | _ => exact ⟨none, trivial, unknown⟩

theorem tableReads_sound (may : ι → Op → Prop) : tableReads.Sound (dbSystem may)
    (fun w => recordsOff ≤ (w.bytes .idx).length) atOffset fun _ _ => True where
  step {p t w c answer w'} table related guard answers := by
    refine ⟨table.trans (fileKernel_grows answers (fun file creat trunc same => ?_) .idx),
      tableReads_next table related answers⟩
    subst same
    exact guard
  others related _ answers other := by
    refine ⟨fun t' atOther n known => ?_, id⟩
    rw [fileKernel_pos_other answers other]
    exact atOther n known
  exit table := ⟨table, trivial⟩
  exitOthers _ := ⟨fun _ related => related, id⟩

/-- The processes call what they like, without `O_TRUNC`. -/
def untruncated : DbSystem ι := dbSystem fun _ op => ∀ oflag, op = .open oflag → oflag.trunc = false

/-- The processes call `db_open` with `O_CREAT` and without `O_TRUNC`. -/
def creators : DbSystem ι := dbSystem fun _ op => op = .open ⟨true, false⟩

/-- The states with a table, in which every process is inside the library or has a handle for the
table. -/
abbrev Tabled (c : DbConfig ι) : Prop :=
  tableReads.Followed (fun w => recordsOff ≤ (w.bytes .idx).length) atOffset
    (fun _ _ => True) onTable c

theorem Tabled.run {may : ι → Op → Prop}
    (known : ∀ p op, may p op → ∀ oflag, op = .open oflag → oflag.trunc = false)
    {along : DbConfig ι → Prop} {c c' : DbConfig ι} {history : List (DbEvent ι)} (tabled : Tabled c)
    (run : Run (dbSystem may) along c history c') : Tabled c' :=
  run.invariant tabled fun _ _ _ _ before last => before.step (tableReads_sound may)
    (fun p _ _ _ allowed table => dbCode_inTable (known p _ allowed.2) table) last

omit [DecidableEq ι] in
theorem Tabled.stopped {c : DbConfig ι} (tabled : Tabled c) {p : ι} {error : Err}
    (stopped : c.procs p = .stopped error) :
    error.ofReadptr = false := by
  have here := tabled.2 p
  rw [stopped] at here
  obtain ⟨_, _, other⟩ := here
  exact other

/-! ## Opening without `O_TRUNC` -/

/-- Nothing is written, no file is truncated, and the file a process may not open, if there is one,
is not opened. -/
def noWrites : Checker (FileSig File) Err (Option File) where
  guard _
    | .write .. => False
    | .openFile _ _ trunc => trunc = false
    | _ => True
  next denied c answer denied' := denied' = denied ∧ match c, answer with
    | .openFile file _ _, opened => denied = some file → Eq (α := Bool) opened false
    | _, _ => True
  stops _ _ := True

omit [DecidableEq ι] in
theorem keeps_dbOpen (creat : Bool) (denied : Option File) (db : DB) :
    noWrites.Keeps denied (dbOpen ⟨creat, false⟩) db fun ok _ denied' => denied' = denied ∧
      (denied ≠ none → ok = false) := by
  let Same (_ : DB) (denied' : Option File) : Prop := denied' = denied
  have call {c : FileCall File} (may : noWrites.guard none c) :
      noWrites.Preserves Same (Db.sys c) := by
    refine .call (fun _ _ _ => ?_) fun _ _ _ _ same moved => moved.1.trans same
    cases c <;> exact may
  have closing (file : File) : noWrites.Preserves Same (Db.close file) := call trivial
  have freeing (idxfd datfd : Bool) : noWrites.Preserves Same (dbFree idxfd datfd) := by
    cases idxfd <;> cases datfd
    · exact .pure _
    · exact closing .dat
    · exact .bind (closing .idx) fun _ => .pure _
    · exact .bind (closing .idx) fun _ => closing .dat
  have rewinding : noWrites.Preserves Same dbRewind := by
    refine .get fun _ => .bind (.bind (call trivial) fun (result : Option Nat) => ?_) fun _ =>
      .modified fun _ _ same => same
    cases result with
    | none => exact .abort fun _ _ _ => trivial
    | some offset => exact .pure _
  have opening (file : File) (db : DB) :
      noWrites.Keeps denied (openFile file creat false) db fun ok _ denied' =>
      denied' = denied ∧ (denied = some file → ok = false) := .call rfl fun _ _ moved => moved
  refine .bind (M := fun _ _ denied' => denied' = denied) (.set rfl) fun _ db₀ denied₀ same => ?_
  subst same
  refine .bind (opening .idx _) fun idxfd db₁ denied₁ first => ?_
  obtain ⟨rfl, idx⟩ := first
  refine .bind (opening .dat _) fun datfd db₂ denied₂ second => ?_
  obtain ⟨rfl, dat⟩ := second
  by_cases failed : (!idxfd || !datfd) = true
  · rw [if_pos failed]
    exact .bind ((freeing _ _).keeps rfl) fun _ _ _ same => .pure ⟨same, fun _ => rfl⟩
  · rw [if_neg failed, if_neg (by simp)]
    refine .bind (rewinding.keeps rfl) fun _ _ _ same => .pure ⟨same, fun some => ?_⟩
    -- both files are open, so none of them is denied
    exfalso
    cases known : denied₂ with
    | none => exact some known
    | some file => cases file <;> simp_all

/-- The file the process may not open, or that it may open both. -/
def mayOpen (p : ι) (denied : Option File) (w : World ι File) : Prop :=
  match denied with
  | some file => w.denied p file = true
  | none => ∀ file, w.denied p file = false

theorem noWrites_sound (may : ι → Op → Prop) (w₀ : World ι File) :
    noWrites.Sound (dbSystem may) (fun w => w.bytes = w₀.bytes ∧ w.denied = w₀.denied) mayOpen
      fun _ _ => True where
  step {p denied w c answer w'} fit related guard answers := by
    obtain ⟨same, rights⟩ := fit
    suffices ∃ denied', noWrites.next denied c answer denied' ∧ mayOpen p denied' w' ∧
        w'.bytes = w₀.bytes by
      obtain ⟨denied', moved, related', same'⟩ := this
      exact ⟨⟨same', (fileKernel_denied answers).trans rights⟩, denied', moved, related'⟩
    have kept : mayOpen p denied w' := by
      unfold mayOpen
      rw [fileKernel_denied answers]
      exact related
    cases c with
    | write file buffer => exact guard.elim
    | openFile file creat trunc =>
      obtain rfl : trunc = false := guard
      simp only [dbSystem, fileKernel] at answers
      split at answers
      · cases answers
        exact ⟨denied, ⟨rfl, fun _ => rfl⟩, kept, same⟩
      case isFalse granted =>
        cases answers
        refine ⟨denied, ⟨rfl, fun isFile => ?_⟩, kept, ?_⟩
        · subst isFile
          simp [show w.denied p file = true from related] at granted
        · rw [← same]
          exact Function.update_eq_self file w.bytes
    | lseek file offset whence =>
      simp only [dbSystem, fileKernel] at answers
      split at answers <;> cases answers <;> exact ⟨denied, ⟨rfl, trivial⟩, kept, same⟩
    | setlkw file type range =>
      simp only [dbSystem, fileKernel] at answers
      split at answers <;> cases answers
      exact ⟨denied, ⟨rfl, trivial⟩, kept, same⟩
    | _ =>
      cases answers
      exact ⟨denied, ⟨rfl, trivial⟩, kept, same⟩
  others {p q denied w c answer w'} _ _ answers _ := by
    refine ⟨fun denied' related => ?_, id⟩
    unfold mayOpen
    rw [fileKernel_denied answers]
    exact related
  exit same := ⟨same, trivial⟩
  exitOthers _ := ⟨fun _ => id, id⟩

/-- As long as the processes only open the database, its files are as before, and who may not open
one of them has no handle. -/
theorem creators_run {along : DbConfig ι → Prop} {w : World ι File} {c : DbConfig ι}
    {history : List (DbEvent ι)}
    (run : Run creators along (startOn w) history c) :
    c.world.bytes = w.bytes ∧ ∀ p db, c.procs p = .idle (some db) →
      ∀ file, w.denied p file = false := by
  have start : noWrites.Followed (fun w' => w'.bytes = w.bytes ∧ w'.denied = w.denied) mayOpen
      (fun _ _ => True)
      (fun (handle : Option DB) denied => denied ≠ none → handle = none) (startOn w) := by
    refine ⟨⟨rfl, rfl⟩, fun p => ?_⟩
    by_cases denied : ∃ file, w.denied p file = true
    · obtain ⟨file, isDenied⟩ := denied
      exact ⟨some file, fun _ => rfl, isDenied⟩
    · exact ⟨none, fun impossible =>
        absurd rfl impossible, by simpa [mayOpen, startOn] using denied⟩
  have followed := run.invariant start fun _ _ _ _ before last => before.step (noWrites_sound _ w)
    (fun p handle op denied allowed _ => by
      obtain ⟨-, rfl⟩ := allowed
      have called : noWrites.Keeps denied
          (dbCall (.open ⟨true, false⟩)) (handle.getD {}) fun res _ denied' =>
          denied' = denied ∧ (denied ≠ none → res = .handle false) :=
        (keeps_dbOpen true denied _).bind fun _ _ _ kept =>
          .pure ⟨kept.1, fun some => by rw [kept.2 some]⟩
      refine Checker.Follows.bind called fun result denied' kept => .ret fun some => ?_
      obtain ⟨rfl, refused⟩ := kept
      change handleAfter result.1 result.2 = none
      rw [refused some]
      rfl) last
  refine ⟨followed.1.1, fun p db atP => ?_⟩
  have here := followed.2 p
  rw [atP] at here
  obtain ⟨denied, noHandle, related⟩ := here
  cases denied with
  | none =>
    rw [← followed.1.2]
    exact related
  | some file => cases noHandle (by simp)

/-- A process that may open both files gets a handle. -/
theorem exec_dbOpen_created {p : ι} {w : World ι File} (granted : ∀ file, w.denied p file = false)
    (db : DB) :
    ∃ db' w', Exec (fileKernel p) (dbOpen ⟨true, false⟩ db) w (.returned (true, db')) w' := by
  let opened (w : World ι File) (file : File) : World ι File :=
    { (w.setBytes file (w.bytes file)).setPos p file 0 with present := Function.update w.present file true }
  have opens (w : World ι File) (file : File) (granted : w.denied p file = false) :
      fileKernel p (.openFile file true false) w = some (true, opened w file) := by
    rw [fileKernel, granted, if_neg (by simp)]
    rfl
  let w' := (opened (opened w .idx) .dat).setPos p .idx recordsOff
  have seek : fileKernel p (.lseek .idx recordsOff .set) (opened (opened w .idx) .dat) =
    some (some recordsOff, w') := rfl
  refine ⟨{ idxoff := recordsOff }, w',
    .call (opens w .idx (granted .idx)) (.call (opens _ .dat (granted .dat)) ?_)⟩
  exact .call seek (.ret _ _)

/-- The index file starts with the free-list pointer, the chain pointers and a newline. -/
def HasTable (idx : Bytes) : Prop :=
  ∃ heads rest, heads.length = nhashDef + 1 ∧ idx = tiles encPtr heads ++ [newline] ++ rest

omit [DecidableEq ι] in
theorem HasTable.length {idx : Bytes} (table : HasTable idx) : recordsOff ≤ idx.length := by
  obtain ⟨heads, rest, length, rfl⟩ := table
  rw [List.length_append, List.length_append, Image.tiles_encPtr_length, length]
  simp only [recordsOff, nhashDef, ptrSz, List.length_singleton]
  omega

omit [DecidableEq ι] in
theorem DbRep.hasTable {idx dat : Bytes} {d : Layout} (rep : DbRep idx dat d) : HasTable idx :=
  ⟨d.img.heads, tiles Entry.enc d.img.recs, rep.wellFormed.table, rep.index⟩

/-- No file, two empty files, or a database. -/
def Prior (w : World ι File) : Prop :=
  (∀ file, w.present file = false ∧ w.bytes file = []) ∨
    (∀ file, w.present file = true ∧ w.bytes file = []) ∨
    (∀ file, w.present file = true) ∧ ∃ d, DbRep (w.bytes .idx) (w.bytes .dat) d

/-- Whenever processes that call `db_open` with `O_CREAT`, without `O_TRUNC`, have run and one of
them has got a handle, the index file has its table, the records of before are there, and whatever
the processes do from there on, none of them stops in `_db_readptr`. -/
def OpensUsable (w : World ι File) : Prop :=
  ∀ history c p db, Run creators (fun _ => True) (startOn w) history c →
    c.procs p = .idle (some db) →
    HasTable (c.world.bytes .idx) ∧
      (∀ d, DbRep (w.bytes .idx) (w.bytes .dat) d →
        DbRep (c.world.bytes .idx) (c.world.bytes .dat) d) ∧
      ∀ events c' q error, Run untruncated (fun _ => True) c events c' →
        c'.procs q = .stopped error → error.ofReadptr = false

theorem creates {p : ι} {w : World ι File} (granted : ∀ file, w.denied p file = false) :
    ∃ history c db, Run creators (fun _ => True) (startOn w) history c ∧
      c.procs p = .idle (some db) := by
  obtain ⟨db, w', opens⟩ := exec_dbOpen_created granted {}
  have called : Exec ((creators (ι := ι)).kernel p)
      ((creators (ι := ι)).code (.open ⟨true, false⟩) none) w
      (.returned (.handle true, some db)) w' := Exec.bind (Exec.bind opens (.ret _ _)) (.ret _ _)
  let op : Op := .open ⟨true, false⟩
  let entered := (startOn w).setProc p (.busy op ((creators (ι := ι)).code op none))
  let ended : DbConfig ι :=
    Config.setProc { startOn w with world := w' } p (.busy op (.ret (.handle true, some db)))
  have invoked : Step creators p (startOn w) [.invoke p op] entered :=
    .invoke rfl ⟨.inr ⟨_, rfl⟩, rfl⟩
  have inside : Run creators (fun _ => True) entered [] ended := called.run rfl (startOn w)
  have responds : Step creators p ended [.respond p op (.handle true)]
      (ended.setProc p (.idle (some db))) :=
    .respond (Config.setProc_self ..)
  have entering : Run creators (fun _ => True) (startOn w) _ entered :=
    .step (.start trivial) invoked trivial
  exact ⟨_, _, db, .step (entering.trans inside) responds trivial, Config.setProc_self ..⟩

/-- Files that are empty before stay so, without a table. -/
theorem not_opensUsable {w : World ι File} (empty : w.bytes .idx = []) {p : ι}
    (granted : ∀ file, w.denied p file = false) :
    ¬OpensUsable w := by
  intro usable
  obtain ⟨history, c, db, run, atP⟩ := creates granted
  have table := (usable history c p db run atP).1.length
  rw [(creators_run run).1, empty] at table
  exact absurd table (by decide)

/-- That is so if the files are a database before, and else only if no process may open both. -/
theorem created_usable_iff {w : World ι File} (prior : Prior w) :
    OpensUsable w ↔ (∃ d, DbRep (w.bytes .idx) (w.bytes .dat) d) ∨
      ∀ p, ∃ file, w.denied p file = true := by
  constructor
  · intro usable
    by_contra neither
    rw [not_or] at neither
    obtain ⟨noDatabase, allowed⟩ := neither
    obtain ⟨p, granted⟩ : ∃ p, ∀ file, w.denied p file = false := by simpa using allowed
    have empty : w.bytes .idx = [] := by
      cases prior with
      | inl absent => exact (absent .idx).2
      | inr prior =>
        cases prior with
        | inl empty => exact (empty .idx).2
        | inr database => exact absurd database.2 noDatabase
    exact not_opensUsable empty granted usable
  · intro given history c p db run atP
    cases given with
    | inr denied =>
      obtain ⟨file, isDenied⟩ := denied p
      rw [(creators_run run).2 p db atP file] at isDenied
      cases isDenied
    | inl database =>
      obtain ⟨d, rep⟩ := database
      have bytes := (creators_run run).1
      have start : Tabled (startOn w) :=
        ⟨rep.hasTable.length, fun _ => ⟨none, by simp [onTable], by simp [atOffset]⟩⟩
      have tabled : Tabled c :=
        start.run (fun _ op same oflag same' => by subst same; cases same'; rfl) run
      rw [bytes]
      refine ⟨rep.hasTable, fun _ => id, fun events c' q error later stopped => ?_⟩
      exact (tabled.run (fun _ _ known => known) later).stopped stopped

end

/-- A database with a record and a deleted one. -/
theorem created_usable_iff_stored :
    ∃ w : World Bool File, w.bytes .dat = [120, newline, space, newline] ∧
    w.denied = (fun _ _ => false) ∧ OpensUsable w := by
  have ran : (((dbOpen ⟨true, true⟩).returns soloKernel 10000 ({}, .absent)).bind fun (ok, s₁) =>
      (sessionRun Admits [.store [97] [120] .insert, .store [98] [121] .insert, .delete [98]] ([],
          s₁)).map fun (_, s) =>
        decide (ok = true ∧ s.2.bytes .dat = [120, newline, space, newline])) = some true := by
    decide +kernel
  simp only [Option.bind_eq_some_iff, Option.map_eq_some_iff] at ran
  obtain ⟨⟨ok, s₁⟩, opens, ⟨calls, s⟩, session, same⟩ := ran
  obtain ⟨rfl, dat⟩ := of_decide_eq_true same
  obtain ⟨start, -, -⟩ := Usable.of_open rfl (Code.returns_sound opens)
  obtain ⟨d, usable, -⟩ := Session.usable start (sessionRun_sound .start session)
  let w : World Bool File := ⟨s.2.bytes, fun _ => true, fun _ _ => false, fun _ _ => 0, []⟩
  have prior : Prior w := .inr (.inr ⟨fun _ => rfl, d, usable.rep⟩)
  exact ⟨w, dat, rfl, (created_usable_iff prior).2 (.inl ⟨d, usable.rep⟩)⟩

/-- A database that is not there. -/
theorem created_unusable : ¬OpensUsable (.absent : World Bool File) :=
  not_opensUsable rfl (p := true) fun _ => rfl

end Apue.Db
