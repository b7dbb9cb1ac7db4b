import Apue.Db.Readback
import Apue.Db.Reopen

/-! # Stores that are refused

`db_store` checks the length of the data before it looks at the files.  The other checks are made by
the functions that write: when `_db_writeidx` or `_db_writeptr` refuses what it is given, the old
record of the key has been deleted and the new data, or the new index record, has been appended.
-/

namespace Apue.Db

open Apue.Base St

variable {room : Nat} {d d' : Layout} {idx dat : Bytes} {w w' : World Unit File} {db db' : DB}
    {key data : Bytes} {error : Err} {α : Type}

/-- The checks of the library on what it is about to write.  The length of an index record is
checked after the `sprintf` that may overrun `idxbuf`. -/
def Err.isCheck : Err → Bool
  | .storeDatlen | .writeidxPtr | .writeidxLength | .writeptrPtr | .idxbufOverrun => true
  | _ => false

/-! ## The writers, one call after the other -/

/-- Run from `w`, the code returns as said by `Q`, or stops at a check as said by `E`, or stops
elsewhere. -/
abbrev Runs (E : World Unit File → Prop) (w : World Unit File) (m : DbM α) (db : DB)
    (Q : α → DB → World Unit File → Prop) : Prop :=
  (Checker.running soloKernel fun w (error : Err) => error.isCheck = true → E w).Keeps w m db Q

namespace Runs

variable {E : World Unit File → Prop} {file : File} {Q : Unit → DB → World Unit File → Prop}

theorem stops (other : error.isCheck = false) {Q : α → DB → World Unit File → Prop} :
    Runs E w (Code.abort error) db Q := by
  apply Checker.Keeps.abort
  intro check
  rw [other] at check
  cases check

theorem lseek (offset : Int) (whence : Whence) (other : error.isCheck = false) :
    Runs E w (Db.lseek file offset whence error) db fun n db' w' =>
      (n : Int) = w.target () file offset whence ∧ db' = db ∧ w' = w.setPos () file n := by
  refine .bind (M := fun (result : Option Nat) db' w' => db' = db ∧
    ∀ n, result = some n → (n : Int) = w.target () file offset whence ∧ w' = w.setPos () file n)
      (.call trivial ?_) ?_
  · intro (result : Option Nat) w' answers
    refine ⟨rfl, fun n same => ?_⟩
    subst same
    change fileKernel () (.lseek file offset whence) w = some (some n, w') at answers
    rw [fileKernel] at answers
    split at answers
    · cases answers
    · cases answers
      exact ⟨by omega, rfl⟩
  · rintro result db' w' ⟨same, moved⟩
    subst same
    cases result with
    | none => exact stops other
    | some n =>
      obtain ⟨isN, rfl⟩ := moved n rfl
      exact .pure ⟨isN, rfl, rfl⟩

theorem write (buffer : Bytes) (other : error.isCheck = false) :
    Runs E w (Db.write file buffer error) db fun _ db' w' =>
    buffer.length ≤ writeMax ∧ db' = db ∧
      w'.bytes = Function.update w.bytes file (writeAt (w.bytes file) (w.pos () file) buffer) := by
  refine .bind (M := fun (count : Nat) db' w' => db' = db ∧
    (count = buffer.length → buffer.length ≤ writeMax ∧
    w'.bytes = Function.update w.bytes file (writeAt (w.bytes file) (w.pos () file) buffer)))
      (.call trivial ?_) ?_
  · intro count w' answers
    refine ⟨rfl, fun complete => ?_⟩
    cases answers
    rw [List.length_take] at complete
    have short : buffer.length ≤ writeMax := by omega
    refine ⟨short, ?_⟩
    rw [List.take_of_length_le short]
    rfl
  · intro count db' w' ⟨same, written⟩
    subst same
    by_cases complete : count = buffer.length
    · rw [if_pos complete]
      exact .pure ⟨(written complete).1, rfl, (written complete).2⟩
    · rw [if_neg complete]
      exact stops other

theorem lockReg {type : LockType} {start len : Nat} (other : error.isCheck = false) :
    Runs E w (Db.lockReg file type start len error) db fun _ db' w' => db' = db ∧
      w'.bytes = w.bytes ∧ w'.pos = w.pos := by
  refine .bind (M := fun _ db' w' => db' = db ∧ w'.bytes = w.bytes ∧
    w'.pos = w.pos) (.call trivial ?_) ?_
  · intro granted w' answers
    change fileKernel () (.setlkw file type (.ofLen start len)) w = some (granted, w') at answers
    rw [fileKernel] at answers
    split at answers <;> cases answers
    exact ⟨rfl, rfl, rfl⟩
  · intro (granted : Bool) db' w' kept
    cases granted with
    | true => exact .pure kept
    | false => exact stops other

theorem unLock {start len : Nat} (other : error.isCheck = false) :
    Runs E w (Db.unLock file start len error) db fun _ db' w' => db' = db ∧ w'.bytes = w.bytes ∧
      w'.pos = w.pos := by
  refine .bind (M := fun _ db' w' => db' = db ∧ w'.bytes = w.bytes ∧
    w'.pos = w.pos) (.call trivial ?_) ?_
  · intro released w' answers
    cases answers
    exact ⟨rfl, rfl, rfl⟩
  · intro (released : Bool) db' w' kept
    cases released with
    | true => exact .pure kept
    | false => exact stops other

theorem whenAppending (whence : Whence) {m : DbM Unit}
    (kept : Runs E w m db fun _ db' w' => db' = db ∧ w'.bytes = w.bytes ∧ w'.pos = w.pos) :
    Runs E w (Db.whenAppending whence m) db fun _ db' w' => db' = db ∧ w'.bytes = w.bytes ∧
      w'.pos = w.pos := by
  unfold Db.whenAppending
  split
  · exact kept
  · exact .pure ⟨rfl, rfl, rfl⟩

/-- A write at a place that is sought first, between the locks of an append. -/
theorem seekWrite {f : Nat → DB → DB} {buffer : Bytes} {offset : Int} {whence : Whence}
    {start len : Nat}
    (lock seek put unlock : Err)
    (quiet : lock.isCheck = false ∧ seek.isCheck = false ∧ put.isCheck = false ∧
    unlock.isCheck = false) :
    Runs E w (do
      Db.whenAppending whence (writewLock file start len lock)
      let n ← Db.lseek file offset whence seek
      modify (f n)
      Db.write file buffer put
      Db.whenAppending whence (Db.unLock file start len unlock)) db fun _ db' w' =>
        buffer.length ≤ writeMax ∧ ∃ n : Nat, (n : Int) = w.target () file offset whence ∧
          db' = f n db ∧
          w'.bytes = Function.update w.bytes file (writeAt (w.bytes file) n buffer) := by
  obtain ⟨quietLock, quietSeek, quietPut, quietUnlock⟩ := quiet
  refine .bind (whenAppending whence (lockReg quietLock)) fun _ db₁ w₁ first => ?_
  obtain ⟨rfl, bytes₁, pos₁⟩ := first
  refine .bind (lseek offset whence quietSeek) fun n db₂ w₂ second => ?_
  obtain ⟨isN, rfl, rfl⟩ := second
  refine .modifyThen (.bind (write buffer quietPut) fun _ db₃ w₃ third => ?_)
  obtain ⟨short, rfl, bytes₃⟩ := third
  refine (whenAppending whence (unLock quietUnlock)).weaken fun _ db₄ w₄ fourth => ?_
  obtain ⟨rfl, bytes₄, -⟩ := fourth
  refine ⟨short, n, ?_, rfl, ?_⟩
  · rw [isN]
    unfold World.target
    rw [bytes₁, pos₁]
  · rw [bytes₄, bytes₃, World.setPos_pos]
    simp [World.setPos, bytes₁]

end Runs

section

variable {E : World Unit File → Prop}

theorem runs_writedat (offset : Int) (whence : Whence) :
    Runs E w (dbWritedat data offset whence) db fun _ db' w' =>
    strlen data + 1 ≤ writeMax ∧ ∃ n : Nat, (n : Int) = w.target () .dat offset whence ∧
      db' = { db with datoff := n, datlen := strlen data + 1 } ∧
      w'.bytes = Function.update w.bytes .dat
        (writeAt (w.bytes .dat) n (cstr data ++ [newline])) := by
  have written : Runs E w (dbWritedat data offset whence) db _ :=
    Runs.seekWrite (f := fun n db => { db with datoff := n, datlen := strlen data + 1 })
      .writedatLock .writedatLseek
      .writedatWritev .writedatUnlock ⟨rfl, rfl, rfl, rfl⟩
  refine written.weaken fun _ db' w' holds => ?_
  obtain ⟨short, rest⟩ := holds
  rw [List.length_append, List.length_singleton] at short
  exact ⟨short, rest⟩

/-- `_db_writeidx` stops before it writes if the text is too long or too short. -/
theorem runs_writeidx {v : Nat} (small : v ≤ ptrMax) (offset : Int) (whence : Whence) {text : Bytes}
    (isText : text = idxText (cstr key) db.datoff db.datlen)
    (unfit : ¬(idxlenMin ≤ text.length ∧ text.length ≤ idxlenMax) → E w) :
    Runs E w (dbWriteidx key offset whence v) db fun _ db' w' => (idxlenMin ≤ text.length ∧
      text.length ≤ idxlenMax) ∧
      ∃ n : Nat, (n : Int) = w.target () .idx offset whence ∧ db'.idxoff = n ∧
        db'.chainoff = db.chainoff ∧
        w'.bytes = Function.update w.bytes .idx
          (writeAt (w.bytes .idx) n (encPtr v ++ encLen text.length ++ text)) := by
  subst isText
  refine .modifyThen ?_
  rw [if_neg (by omega)]
  refine .getThen ?_
  dsimp only
  by_cases long : (idxText (cstr key) db.datoff db.datlen).length + 1 > idxlenMax + 2
  · rw [if_pos long]
    refine .abort fun _ => unfit ?_
    omega
  rw [if_neg long]
  refine .modifyThen ?_
  by_cases fits : idxlenMin ≤ (idxText (cstr key) db.datoff db.datlen).length ∧
      (idxText (cstr key) db.datoff db.datlen).length ≤ idxlenMax
  · rw [if_neg (by omega)]
    refine .getThen ?_
    refine Checker.Keeps.weaken (Runs.seekWrite (f := fun n db => { db with idxoff := n })
      .writeidxLock .writeidxLseek
      .writeidxWritev .writeidxUnlock ⟨rfl, rfl, rfl, rfl⟩) fun _ db' w' holds => ?_
    obtain ⟨-, n, isN, rfl, bytes⟩ := holds
    refine ⟨fits, n, isN, rfl, rfl, ?_⟩
    rw [bytes, writeidx_buffer small fits.2]
  · rw [if_pos (by omega)]
    exact .abort fun _ => unfit fits

theorem runs_writeptr {offset : Int} {v : Nat} (far : ptrMax < v → E w) :
    Runs E w (dbWriteptr offset v) db fun _ _ _ => True := by
  unfold dbWriteptr
  by_cases large : ptrMax < v
  · rw [if_pos (by omega)]
    exact .abort fun _ => far large
  · rw [if_neg (by omega)]
    refine .bind (Runs.lseek _ _ rfl) fun _ _ _ _ => ?_
    exact (Runs.write _ rfl).weaken fun _ _ _ _ => trivial

end

/-! ## Appending -/

/-- The files with data appended. -/
def withData (w : World Unit File) (data : Bytes) : File → Bytes :=
  Function.update w.bytes .dat (w.bytes .dat ++ (data ++ [newline]))

/-- How the record is refused when it is appended: its length is not valid, and the data is in the
file; or its offset does not fit a pointer, and the record is in the file too. -/
inductive Refused (w : World Unit File) (e : Entry) (w' : World Unit File) : Prop where
  | length (short : e.dlen ≤ writeMax) (unfit : ¬(idxlenMin ≤ e.text.length ∧ e.text.length ≤ idxlenMax))
      (bytes : w'.bytes = withData w e.data)
  | offset (short : e.dlen ≤ writeMax) (fits : idxlenMin ≤ e.text.length ∧ e.text.length ≤ idxlenMax)
      (far : ptrMax < (w.bytes .idx).length) (bytes : w'.bytes = Function.update (withData w e.data)
        .idx (w.bytes .idx ++ e.enc))

theorem runs_storeAppend {v : Nat} (small : v ≤ ptrMax) (keyClean : NulFree key)
    (dataClean : NulFree data) :
    Runs (Refused w ⟨v, key, (w.bytes .dat).length, data⟩) w (storeAppend key data v) db
      fun _ _ _ => True := by
  let e : Entry := ⟨v, key, (w.bytes .dat).length, data⟩
  refine .bind (runs_writedat 0 .fromEnd) fun _ db₁ w₁ first => ?_
  obtain ⟨short, n, isN, rfl, bytes₁⟩ := first
  rw [strlen_of_nulFree dataClean] at short
  rw [cstr_of_nulFree dataClean] at bytes₁
  have atEnd : n = (w.bytes .dat).length := by
    simp only [World.target] at isN
    omega
  subst atEnd
  rw [writeAt_end] at bytes₁
  have isText : e.text = idxText (cstr key) ((w.bytes .dat).length : Nat) (strlen data + 1) := by
    rw [cstr_of_nulFree keyClean, strlen_of_nulFree dataClean]
    rfl
  refine .bind (runs_writeidx small 0 .fromEnd isText fun unfit => .length short unfit bytes₁)
    fun _ db₂ w₂ second => ?_
  obtain ⟨fits, m, isM, idxoff, -, bytes₂⟩ := second
  have idx₁ : w₁.bytes .idx = w.bytes .idx := by rw [bytes₁, Function.update_of_ne (by decide)]
  have atEnd : m = (w.bytes .idx).length := by
    simp only [World.target, idx₁] at isM
    omega
  subst atEnd
  rw [idx₁, writeAt_end, bytes₁] at bytes₂
  refine .getThen ?_
  rw [idxoff]
  exact runs_writeptr fun far => .offset short fits far bytes₂

theorem storeAppend_refused {v : Nat} (small : v ≤ ptrMax) (keyClean : NulFree key)
    (dataClean : NulFree data)
    (stops : Exec soloKernel (storeAppend key data v db) w (.aborted error) w')
    (check : error.isCheck = true) :
    Refused w ⟨v, key, (w.bytes .dat).length, data⟩ w' :=
  Checker.Follows.running (runs_storeAppend small keyClean dataClean) stops check

/-! ## The free list -/

theorem ReadsOnly.readptr (offset : Int) : ReadsOnly (dbReadptr offset) :=
  .bind (lseek ..) fun _ => .bind (read ..) fun _ => .ite (abort _) (.pure _)

theorem ReadsOnly.findAndLock (key : Bytes) (writelock : Bool) :
    ReadsOnly (dbFindAndLock key writelock) := by
  refine .bind (modified _) fun _ => .bind (.get fun _ => .ite (lockReg ..) (lockReg ..)) fun _ =>
    .get fun _ => ?_
  refine .bind (readptr _) fun _ => .bind (.loop (fun _ => ?_) _) fun _ => .pure _
  exact .ite (.pure _) (.bind (readidx _) fun _ => .get fun _ =>
    .ite (.pure _) (.bind (modified _) fun _ => .pure _))

/-- If `_db_findfree` takes no record, it writes nothing. -/
theorem findfree_none {keylen datlen rc : Int} (none : rc < 0)
    (runs : Exec soloKernel (dbFindfree keylen datlen db) w (.returned (rc, db')) w') :
    w'.bytes = w.bytes := by
  obtain ⟨⟨_, db₁⟩, w₁, locks, runs⟩ := runs.of_bind_returned
  obtain ⟨⟨offset, db₂⟩, w₂, reads, runs⟩ := runs.of_bind_returned
  obtain ⟨⟨⟨saveoffset, place⟩, db₃⟩, w₃, walks, runs⟩ := runs.of_bind_returned
  obtain ⟨⟨found, db₄⟩, w₄, unlinks, runs⟩ := runs.of_bind_returned
  obtain ⟨⟨_, db₅⟩, w₅, unlocks, last⟩ := runs.of_bind_returned
  have turn (place : Int × Int) : ReadsOnly (findfreeTurn keylen datlen place) :=
    .ite (.pure _) (.bind (ReadsOnly.readidx _) fun _ => .get fun _ => .ite (.pure _) (.pure _))
  have bytes₃ : w₃.bytes = w.bytes :=
    ((ReadsOnly.exec (.loop turn _) walks).trans ((ReadsOnly.readptr _).exec reads)).trans
      ((ReadsOnly.lockReg ..).exec locks)
  have bytes₅ : w₅.bytes = w₄.bytes := (ReadsOnly.unLock ..).exec unlocks
  cases last
  rw [bytes₅, ← bytes₃]
  change Exec soloKernel (findfreeUnlink saveoffset place db₃) w₃ _ _ at unlinks
  unfold findfreeUnlink at unlinks
  split at unlinks
  · cases unlinks
    rfl
  · -- a record has been taken
    obtain ⟨_, w₆, _, last⟩ :=
      Exec.of_bind_returned (show Exec soloKernel ((dbWriteptr saveoffset db₃.ptrval >>=
      fun _ => pure 0 : DbM Int) db₃) w₃ _ _ from unlinks)
    cases last
    exact absurd none (by decide)

/-! ## The branches of a store -/

/-- The length of the data, as an `int`, is one `db_store` accepts. -/
def ValidDatlen (data : Bytes) : Prop :=
  (datlenMin : Int) ≤ cInt (data.length + 1 : Nat) ∧ cInt (data.length + 1 : Nat) ≤ datlenMax

instance (data : Bytes) : Decidable (ValidDatlen data) := inferInstanceAs (Decidable (_ ∧ _))

section

variable {σ : St Unit} {op : Op}

/-- Putting a record in the place of a free one, a store stops at a check only if the length of the
key does not fit an `int`. -/
theorem storeReuse_stops (inv : Coherent room σ) {x v : Nat} {e : Entry} (small : v ≤ ptrMax)
    (smallX : x ≤ ptrMax)
    (taken : Taken σ () op key x e σ.map) (blank : isBlank e.key = true) (current : Current db x e)
    (keyFits : e.key.length = sizeT (cInt key.length))
    (datFits : e.dlen = sizeT (cInt (data.length + 1 : Nat)))
    (keyClean : NulFree key) (dataClean : NulFree data)
    (stops : Exec soloKernel (storeReuse key data v db) σ.w (.aborted error) w')
    (check : error.isCheck = true) :
    2 ^ 31 ≤ key.length ∧ ∃ τ : St Unit, w' = τ.w ∧ Coherent room τ ∧ σ.Same τ .lost ∧
      Rewrites x { e with data := data } σ τ := by
  have okE : e.Ok := inv.img.entry taken.found
  have held : σ.Holds () (keyPlace key) .write := (taken.holding _).2 List.mem_cons_self
  have there : HasAt σ.dat e.doff (e.data ++ [newline]) :=
    inv.stored.there (a := .entry x) (by simp [St.extent, taken.found])
  have stops : Exec soloKernel (Prog.bind (dbWritedat data db.datoff .set db) fun written =>
      (do let db ← get; dbWriteidx key db.idxoff .set v; let db ← get; dbWriteptr db.chainoff db.idxoff : DbM Unit) written.2)
      σ.w (.aborted error) w' := stops
  rw [current.datoff] at stops
  obtain ⟨error', same, aborts⟩ | ⟨⟨_, db₁⟩, w₁, writes, rest⟩ := stops.of_bind
  · cases same
    exact (Checker.Follows.running (runs_writedat (E := fun _ => False) e.doff .set) aborts
      check).elim
  obtain ⟨short, -⟩ :=
    Checker.Follows.running (runs_writedat (E := fun _ => False) e.doff .set) writes
  rw [strlen_of_nulFree dataClean, writeMax] at short
  rw [cInt_of_small (by omega), sizeT_natCast (by omega)] at datFits
  have dataLength : data.length = e.data.length := Nat.succ_injective datFits.symm
  obtain ⟨_, db₂, τ, writes', inv', lost, rfl, rewrites⟩ :=
    returns_alone (triple_writedatAt (d := data) (o := .priv ()) (dbHash_lt key)
    held (cstr_of_nulFree dataClean) dataLength (by rw [taken.own]; simp) rfl taken.found there
        (fun visible => by
      rw [show ({ e with data := data } : Entry).key = e.key from rfl, blank] at visible
      cases visible)) inv
  obtain ⟨same, rfl⟩ := writes.deterministic writes'
  cases same
  -- what is left writes the index record and the chain pointer
  have text (small : key.length < 2 ^ 31) :
      (idxText (cstr key) e.doff e.dlen).length = e.text.length := by
    rw [cInt_of_small small, sizeT_natCast (by omega)] at keyFits
    rw [cstr_of_nulFree keyClean, Entry.text]
    simp [idxText, keyFits]
  have huge : Runs (fun w => 2 ^ 31 ≤ key.length ∧ w = τ.w) τ.w
      (do let db ← get; dbWriteidx key db.idxoff .set v; let db ← get; dbWriteptr db.chainoff db.idxoff : DbM Unit)
      { db with datoff := e.doff, datlen := e.dlen } fun _ _ _ => True := by
    refine .getThen (.bind (runs_writeidx small _ .set rfl fun unfit =>
      ⟨?_, rfl⟩) fun _ db₃ w₃ second => ?_)
    · by_contra less
      rw [Nat.not_le] at less
      rw [text less] at unfit
      exact unfit ⟨okE.textMin, okE.textMax⟩
    · obtain ⟨-, n, isN, idxoff, -⟩ := second
      have isX : n = x := by
        rw [current.idxoff] at isN
        exact Int.ofNat_inj.1 isN
      refine .getThen ?_
      rw [idxoff, isX]
      exact runs_writeptr fun far => absurd smallX (Nat.not_le.2 far)
  obtain ⟨isHuge, rfl⟩ := Checker.Follows.running huge rest check
  exact ⟨isHuge, τ, rfl, inv', lost, rewrites⟩

/-- How a store that does not find the key stops at a check: it has taken no free record and
appends, or it has taken one. -/
theorem storeNew_stops (onChain : OnChain (chainOff (dbHash nhashDef key)) db)
    (inv : Coherent room σ)
    (locked : Locked σ () op key .write σ.map) (keyClean : NulFree key) (dataClean : NulFree data)
    (stops : Exec soloKernel
    (dbStoreNew key data (cInt key.length) (cInt (data.length + 1 : Nat)) db) σ.w
    (.aborted error) w')
    (check : error.isCheck = true) :
    (∃ (w₁ : World Unit File) (v : Nat), w₁.bytes = σ.w.bytes ∧ v ≤ ptrMax ∧
      Refused w₁ ⟨v, key, (w₁.bytes .dat).length, data⟩ w') ∨
      (2 ^ 31 ≤ key.length ∧ ∃ (τ : St Unit) (x : Nat) (e : Entry), w' = τ.w ∧ Coherent room τ ∧
        Taken τ () op key x e σ.map ∧
        τ.map = σ.map ∧ isBlank e.key = true ∧ σ.Same τ .lost) := by
  have stops : Exec soloKernel
      ((dbReadptr db.chainoff >>= fun ptrval => dbFindfree (cInt key.length)
      (cInt (data.length + 1 : Nat)) >>=
      fun free => if free < 0 then (storeAppend key data ptrval >>= fun _ => modify fun db =>
        { db with cntStor1 := db.cntStor1 + 1 })
        else (storeReuse key data ptrval >>= fun _ => modify fun db =>
          { db with cntStor2 := db.cntStor2 + 1 }) : DbM Unit) db)
      σ.w (.aborted error) w' := stops
  rw [onChain.chain] at stops
  obtain ⟨_, _, σ₁, reads, inv₁, lost₁, rfl, rfl, rfl, small⟩ :=
    @returns_alone _ db _ _ _ _ (triple_readptr (P := keyPlace key)
    (dbHash_lt key) locked.reads locked.chain.head) inv
  obtain ⟨free, db₂, σ₂, takes, inv₂, lost₂, onChain₂, since, -, -, cases⟩ :=
    returns_alone (triple_findfree onChain (locked.seek _ _)) inv₁
  have map₂ : σ₂.map = σ.map := (since.alone alone).1
  have stops := (stops.after reads).after takes
  obtain ⟨rfl, -⟩ | ⟨rfl, x, e, smallX, taken, blank, current, keyFits, datFits⟩ := cases
  · have bytes₂ := findfree_none (show (-1 : Int) < 0 by decide) takes
    refine .inl ⟨σ₂.w, _, bytes₂, small, ?_⟩
    obtain ⟨error', same, aborts⟩ | ⟨_, w₃, _, last⟩ := Exec.of_bind stops
    · cases same
      exact storeAppend_refused small keyClean dataClean aborts check
    · cases last
  · obtain ⟨error', same, aborts⟩ | ⟨_, w₃, _, last⟩ := Exec.of_bind stops
    · cases same
      obtain ⟨huge, τ, rfl, inv₃, lost₃, rewrites⟩ :=
        storeReuse_stops inv₂ small smallX taken blank current keyFits datFits keyClean dataClean
          aborts check
      have map₃ : τ.map = σ₂.map := by rw [St.map, rewrites.obj]
      refine .inr ⟨huge, τ, x, { e with data := data }, rfl, inv₃,
        ⟨fun l => ?_, ?_, ?_, ?_, ?_, ?_⟩, map₃.trans map₂, blank, ?_⟩
      · rw [rewrites.locks]
        exact taken.holding l
      · rw [rewrites.obj]
        exact taken.status
      · rw [rewrites.members]
        exact taken.own
      · rw [rewrites.fresh]
        exact taken.fresh
      · rw [rewrites.entry, if_pos rfl]
      · rw [← map₂]
        refine taken.chain.congr ⟨congrFun rewrites.members _,
          fun z member => ?_⟩ (rewrites.slot _ (chainOff_lt (dbHash_lt key)))
        rw [rewrites.entry, if_neg]
        rintro rfl
        cases inv₂.sorted.one member (show z ∈ σ₂.members (.priv ()) by rw [taken.own]; simp)
      · exact (lost₁.trans lost₂).trans lost₃
    · cases last

/-- A store that finds the key stops at a check only after it has deleted the record. -/
theorem storeOld_stops (onChain : OnChain (chainOff (dbHash nhashDef key)) db)
    (inv : Coherent room σ)
    (locked : Locked σ () op key .write σ.map) {before after : List Nat} {x : Nat} {e : Entry}
    (split : σ.chain (dbHash nhashDef key) = before ++ x :: after)
    (found : σ.img.entryAt x = some e) (same : e.key = key)
    (current : Current db x e)
    (ptroff : db.ptroff = (lastCell (chainOff (dbHash nhashDef key)) before : Nat))
    (keyClean : NulFree key) (dataClean : NulFree data) {datlen : Int}
    (stops : Exec soloKernel (dbStoreOld key data datlen db) σ.w (.aborted error) w')
    (check : error.isCheck = true) :
    ∃ (τ : St Unit) (v : Nat), Coherent room τ ∧
      Locked τ () op key .write (Function.update σ.map key none) ∧
      τ.map = σ.map ∧ τ.dat.length = σ.dat.length ∧ v ≤ ptrMax ∧
        Refused τ.w ⟨v, key, τ.dat.length, data⟩ w' := by
  have stops : Exec soloKernel
      ((if sizeT datlen ≠ db.datlen then (dbDodelete >>= fun _ => get >>= fun db =>
      dbReadptr db.chainoff >>= fun ptrval => storeAppend key data ptrval >>= fun _ =>
        modify fun db => { db with cntStor3 := db.cntStor3 + 1 })
      else (dbWritedat data db.datoff .set >>= fun _ => modify fun db =>
        { db with cntStor4 := db.cntStor4 + 1 }) : DbM Unit) db)
      σ.w (.aborted error) w' := stops
  split at stops
  · obtain ⟨_, db₁, σ₁, deletes, inv₁, lost₁, onChain₁, locked₁, since, -⟩ :=
      returns_alone (triple_dodelete onChain locked split found same current ptroff) inv
    obtain ⟨map₁, dat₁, -⟩ := since.alone alone
    have stops : Exec soloKernel
        ((dbReadptr db₁.chainoff >>= fun ptrval => storeAppend key data ptrval >>= fun _ =>
        modify fun db => { db with cntStor3 := db.cntStor3 + 1 } : DbM Unit) db₁) σ₁.w
          (.aborted error) w' := stops.after deletes
    rw [onChain₁.chain] at stops
    obtain ⟨_, _, σ₂, reads, inv₂, -, rfl, rfl, rfl, small⟩ :=
      @returns_alone _ db₁ _ _ _ _ (triple_readptr (P := keyPlace key)
      (dbHash_lt key) locked₁.reads locked₁.chain.head) inv₁
    obtain ⟨error', same', aborts⟩ | ⟨_, w₃, _, last⟩ := (stops.after reads).of_bind
    · cases same'
      refine ⟨_, _, inv₂, ?_, map₁, dat₁, small, storeAppend_refused small keyClean dataClean
        aborts check⟩
      rw [← map₁]
      exact locked₁.seek _ _
    · cases last
  · -- the old data is written over
    obtain ⟨error', same', aborts⟩ | ⟨_, w₃, _, last⟩ := stops.of_bind
    · cases same'
      exact (Checker.Follows.running (runs_writedat (E := fun _ => False) _ .set) aborts check).elim
    · cases last

end

/-! ## What is left -/

/-- How a store stops at a check: before it has looked at the files; when it appends to a database
without the key; or in the place of a free record. -/
inductive Stopped (w : World Unit File) (d : Layout) (key data : Bytes)
    (w' : World Unit File) : Prop where
  | datlen (invalid : ¬ValidDatlen data) (bytes : w'.bytes = w.bytes)
  | appending {w₁ : World Unit File} {d₁ : Layout} {v : Nat} (valid : ValidDatlen data)
      (rep : DbRep (w₁.bytes .idx) (w₁.bytes .dat) d₁)
        (map : d₁.map = Function.update d.map key none)
      (unbound : d.map key = none →
        d₁ = d) (length : (w₁.bytes .dat).length = (w.bytes .dat).length) (small : v ≤ ptrMax)
      (refused : Refused w₁ ⟨v, key, (w₁.bytes .dat).length, data⟩ w')
  | reusing {d' : Layout} (unbound : d.map key = none) (huge : 2 ^ 31 ≤ key.length)
      (rep : DbRep (w'.bytes .idx) (w'.bytes .dat) d') (map : d'.map = d.map)
      (records : ∀ record, record ∈ d.img.scan recordsOff ↔ record ∈ d'.img.scan recordsOff)

/-- A free record taken, and nothing else done: the undeleted records are the same. -/
theorem Taken.scan {σ : St Unit} {op : Op} {x : Nat} {e : Entry} {m : Map} (rep : DbRep idx dat d)
    (left : DbRep (σ.w.bytes .idx)
    (σ.w.bytes .dat) σ.left) (taken : Taken σ () op key x e m) (blank : isBlank e.key = true) (map :
    σ.left.map = d.map)
    (lost : σ.members .lost = d.lost) (entries : ∀ x ∈ d.lost, σ.img.entryAt x = d.img.entryAt x)
    (record : Bytes × Bytes) :
    record ∈ d.img.scan recordsOff ↔ record ∈ σ.left.img.scan recordsOff := by
  obtain ⟨k, s⟩ := record
  rw [rep.mem_scan_iff, left.mem_scan_iff, map]
  refine and_congr_right fun visible => or_congr_right ?_
  have members : σ.left.lost = d.lost ++ [x] := by rw [← lost, ← taken.own]; rfl
  constructor
  · intro ⟨y, member, e', found, sameKey, sameData⟩
    refine ⟨y, ?_, e', (entries y member).trans found, sameKey, sameData⟩
    rw [members]
    exact List.mem_append_left _ member
  · intro ⟨y, member, e', found, sameKey, sameData⟩
    rw [members, List.mem_append, List.mem_singleton] at member
    obtain member | rfl := member
    · exact ⟨y, member, e', (entries y member).symm.trans found, sameKey, sameData⟩
    · -- the record that was free is blank
      cases found.symm.trans taken.found
      rw [sameKey, visible] at blank
      cases blank

theorem Usable.stopped (usable : Usable w db d) (keyClean : NulFree key) (dataClean : NulFree data)
    {flag : Int}
    (rejected : Exec soloKernel (dbStore key data flag db) w (.aborted error) w')
    (check : error.isCheck = true) :
    Stopped w d key data w' := by
  unfold dbStore at rejected
  split at rejected
  · cases rejected
  rw [strlen_of_nulFree keyClean, strlen_of_nulFree dataClean] at rejected
  dsimp only at rejected
  split at rejected
  case isTrue invalid =>
    cases rejected
    exact .datlen (fun valid => invalid.elim (not_lt.2 valid.1) (not_lt.2 valid.2)) rfl
  case isFalse valid =>
  have valid : ValidDatlen data := by
    rw [not_or, not_lt, not_lt] at valid
    exact valid
  let op : Op := .store key data .store
  obtain ⟨found, db₁, σ₁, finds, inv₁, -, onChain, locked, visited, located, -, -, -, only⟩ :=
    returns_alone
    (triple_findAndLock keyClean true (usable.ready op) usable.nhash usable.hashoff)
      (usable.coherent (Nat.le_refl _) op)
  have isStart := only alone
  have bytes₁ : σ₁.w.bytes = w.bytes := by rw [isStart]; rfl
  have map₁ : σ₁.map = d.map := by rw [isStart]; rfl
  have img₁ : σ₁.img = d.img := by rw [isStart]; rfl
  have lost₁ : σ₁.members .lost = d.lost := by rw [isStart]; rfl
  have dat₁ : σ₁.dat = w.bytes .dat := by rw [St.dat, bytes₁]
  obtain ⟨error', same, stops⟩ | ⟨⟨rc, db₂⟩, w₂, _, unlocks⟩ := (rejected.after finds).of_bind
  · cases same
    obtain ⟨rfl, before, x, e, after, split, -, foundX, sameKey, current, ptroff⟩ | ⟨rfl, -,
      absent⟩ := located
    · -- the key is bound
      have bound : d.map key ≠ none := by
        rw [← map₁, locked.chain.lookup (by simp [split]) foundX sameKey]
        simp
      unfold storeFound at stops
      rw [if_neg (by decide)] at stops
      split at stops
      · cases stops
      obtain ⟨error', same, aborts⟩ | ⟨_, w₂, _, last⟩ := stops.of_bind
      · cases same
        obtain ⟨τ, v, inv, lockedτ, map, length, small, refused⟩ :=
          storeOld_stops onChain inv₁ locked split foundX sameKey
          current ptroff keyClean dataClean aborts check
        obtain ⟨rep, left⟩ := inv.left lockedτ.holding lockedτ.chain fun k elsewhere => by
          rw [map, Function.update_of_ne (fun same => elsewhere (by rw [same]))]
        rw [map₁] at left
        exact .appending valid rep left (fun unbound => absurd unbound bound)
          (length.trans (by rw [dat₁])) small refused
      · cases last
    · -- the key is not bound
      have unbound₁ : σ₁.map key = none := locked.chain.lookup_none absent
      have unbound : d.map key = none := by rw [← map₁, unbound₁]
      unfold storeFound at stops
      rw [if_pos (by decide)] at stops
      split at stops
      · cases stops
      obtain ⟨error', same, aborts⟩ | ⟨_, w₂, _, last⟩ := stops.of_bind
      · cases same
        obtain ⟨w₂, v, bytes₂, small, refused⟩ | ⟨huge, τ, x, e, rfl, inv, taken, map,
            blank, lost⟩ :=
          storeNew_stops onChain inv₁ locked keyClean dataClean aborts check
        · rw [bytes₁] at bytes₂
          refine .appending valid (by rw [bytes₂]; exact usable.rep) ?_
            (fun _ => rfl) (by rw [bytes₂]) small refused
          rw [← unbound, Function.update_eq_self]
        · obtain ⟨rep, left⟩ := inv.left taken.holding taken.chain fun k _ => by rw [map]
          rw [map₁] at left
          refine .reusing unbound huge rep left (taken.scan usable.rep rep blank left ?_ ?_)
          · rw [lost.list.members, lost₁]
          · intro y member
            rw [← lost₁] at member
            rw [lost.list.entries y member, img₁]
      · cases last
  · have quiet : Runs (fun _ => False) w₂ (do unlockChain .storeUnlock; pure rc : DbM Int) db₂
        fun _ _ _ => True :=
      .bind (.getThen (Runs.unLock rfl)) fun _ _ _ _ => .pure trivial
    exact (Checker.Follows.running quiet unlocks check).elim

/-! ## A record no scan gets past -/

/-- A text with three separators is refused. -/
theorem parseIdxbuf_manySeps {a b c e : Bytes} (cleanA : NulFree a) (cleanB : NulFree b)
    (cleanC : NulFree c)
    (sepA : sep ∉ a) (sepB : sep ∉ b) :
    parseIdxbuf (a ++ sep :: (b ++ sep :: (c ++ sep :: (e ++ [newline])))) =
      .error .readidxManySeps := by
  let rest := c ++ sep :: (e ++ [0])
  have whole : a ++ sep :: (b ++ sep :: (c ++ sep :: (e ++ [newline]))) =
      (a ++ sep :: (b ++ sep :: (c ++ sep :: e))) ++ [newline] := by simp
  have noNewline : (a ++ sep :: (b ++ sep :: (c ++ sep :: e))) ++ [0] = a ++
    sep :: (b ++ sep :: rest) := by simp [rest]
  have drop1 (x : UInt8) (tail : Bytes) : (a ++ x :: tail).drop (a.length + 1) = tail := by
    simp [List.drop_append]
  have first : strchr (a ++ sep :: (b ++ sep :: rest)) sep = some a.length :=
    strchr_append cleanA sepA (by decide) _
  have afterFirst : (a ++ sep :: (b ++ sep :: rest)).set a.length 0 = a ++
    0 :: (b ++ sep :: rest) := by simp
  have second : strchr (b ++ sep :: rest) sep = some b.length :=
    strchr_append cleanB sepB (by decide) _
  have drop2 : ((a ++ 0 :: (b ++ sep :: rest)).set (a.length + 1 + b.length) 0).drop
      (a.length + 1 + b.length + 1) = rest := by
    rw [List.drop_set_of_lt (by omega), Nat.add_assoc, ← List.drop_drop, drop1]
    simp [List.drop_append]
  have third : strchr rest sep ≠ none := by
    apply strchr_ne_none
    unfold cstr
    rw [List.takeWhile_append_of_pos
      fun x member => by simpa using fun zero : x = 0 => cleanC (zero ▸ member),
      List.takeWhile_cons_of_pos (by decide)]
    exact List.mem_append_right _ List.mem_cons_self
  rw [whole]
  unfold parseIdxbuf
  rw [if_neg (not_not_intro List.getLast?_concat), List.dropLast_concat, noNewline]
  simp only [first, afterFirst, drop1, second, drop2]
  rw [if_pos third]

/-- The text of an index record whose key has a separator is refused. -/
theorem parseIdxbuf_sep {doff dlen : Nat} (clean : NulFree key) (member : sep ∈ key) :
    parseIdxbuf (idxText key doff dlen) = .error .readidxManySeps := by
  obtain ⟨a, rest, rfl, sepA⟩ := List.eq_append_cons_of_mem member
  have cleanA : NulFree a := fun zero => clean (List.mem_append_left _ zero)
  have cleanRest : NulFree rest :=
    fun zero => clean (List.mem_append_right _ (List.mem_cons_of_mem _ zero))
  by_cases again : sep ∈ rest
  · obtain ⟨b, c, rfl, sepB⟩ := List.eq_append_cons_of_mem again
    have cleanB : NulFree b := fun zero => cleanRest (List.mem_append_left _ zero)
    have cleanC : NulFree c :=
      fun zero => cleanRest (List.mem_append_right _ (List.mem_cons_of_mem _ zero))
    have text : idxText (a ++ sep :: (b ++ sep :: c)) doff dlen =
        a ++ sep :: (b ++ sep :: (c ++
          sep :: ((decimal doff ++ sep :: decimal dlen) ++ [newline]))) := by
      simp [idxText, decimalInt_natCast]
    rw [text]
    exact parseIdxbuf_manySeps cleanA cleanB cleanC sepA sepB
  · have text : idxText (a ++ sep :: rest) doff dlen =
        a ++ sep :: (rest ++ sep :: (decimal doff ++ sep :: (decimal dlen ++ [newline]))) := by
      simp [idxText, decimalInt_natCast]
    rw [text]
    exact parseIdxbuf_manySeps cleanA cleanRest (nulFree_decimal _) sepA again

section

variable {E : World Unit File → Prop} {img : Image}

theorem Runs.read {file : File} (count : Nat) :
    Runs E w (Db.read file count) db fun buffer db' w' =>
    buffer = readAt (w.bytes file) (w.pos () file) count ∧ db' = db ∧
      w' = w.setPos () file
        (w.pos () file + (readAt (w.bytes file) (w.pos () file) count).length) := by
  refine .call trivial fun buffer w' answers => ?_
  cases answers
  exact ⟨rfl, rfl, rfl⟩

/-- `_db_readidx` at a record: it returns only if the text is one it can read. -/
theorem runs_readidx {v : Nat} {text : Bytes} (small : v ≤ ptrMax) (short : text.length ≤ idxlenMax)
    (has : HasAt (w.bytes .idx) (w.pos () .idx) (encPtr v ++ encLen text.length ++ text)) :
    Runs (fun _ => True) w (dbReadidx 0) db fun ptrval _ w' => ptrval = v ∧ w'.bytes = w.bytes ∧
      w'.pos () .idx = w.pos () .idx + 11 + text.length ∧
        ∃ fields, parseIdxbuf text = .ok fields := by
  obtain ⟨hasFront, hasText⟩ := has.split
  have frontLength : (encPtr v ++ encLen text.length).length = ptrSz + idxlenSz := by
    rw [List.length_append, encPtr_length, encLen_length]
  have front : readAt (w.bytes .idx) (w.pos () .idx) (ptrSz + idxlenSz) = encPtr v ++
      encLen text.length := by
    rw [← frontLength]
    exact hasFront.read
  refine .bind (Runs.lseek 0 _ rfl) fun n db₁ w₁ first => ?_
  obtain ⟨isN, rfl, rfl⟩ := first
  have here : n = w.pos () .idx := by simpa [World.target] using isN
  subst here
  refine .modifyThen (.bind (Runs.read _) fun buffer db₂ w₂ second => ?_)
  obtain ⟨isFront, rfl, rfl⟩ := second
  have pos₁ : (w.setPos () .idx (w.pos () .idx)).pos () .idx = w.pos () .idx := by
    simp [World.setPos_pos]
  have bytes₁ : (w.setPos () .idx (w.pos () .idx)).bytes = w.bytes := rfl
  rw [pos₁, bytes₁, front] at isFront
  rw [isFront, if_pos frontLength, pos₁, bytes₁, front, frontLength]
  refine .modifyThen ?_
  simp only [atol_front small, sizeT_atoi_front _ short]
  split
  · exact .abort fun _ => trivial
  refine .bind (Runs.read _) fun buffer db₃ w₃ third => ?_
  obtain ⟨isText, rfl, rfl⟩ := third
  rw [World.setPos_pos, if_pos rfl, Function.update_self] at isText ⊢
  have read : readAt (w.bytes .idx) (w.pos () .idx + (ptrSz + idxlenSz)) text.length = text := by
    rw [← frontLength]
    exact hasText.read
  obtain rfl : buffer = text := isText.trans read
  rw [if_neg (not_not_intro rfl)]
  cases parsed : parseIdxbuf buffer with
  | error error => exact .abort fun _ => trivial
  | ok fields =>
    refine .modifyThen (.pure ⟨rfl, rfl, ?_, fields, rfl⟩)
    rw [← isText, World.setPos_pos, if_pos rfl, Function.update_self]
    rfl

/-- An index file that ends in a record `_db_readidx` cannot read. -/
structure Spoilt (img : Image) (idx : Bytes) : Prop where
  wellFormed : img.Ok
  tail : ∃ (v : Nat) (text : Bytes) (error : Err), v ≤ ptrMax ∧ text.length ≤ idxlenMax ∧
    idx = img.bytes ++ (encPtr v ++ encLen text.length ++ text) ∧ parseIdxbuf text = .error error

/-- A turn of `db_nextrec` in such a file comes to the end of a record, and does not report the end
of the file. -/
theorem runs_nextrecTurn (spoilt : Spoilt img (w.bytes .idx))
    (boundary : Boundary img (w.pos () .idx)) :
    Runs (fun _ => True) w (nextrecTurn ()) db fun result _ w' => w'.bytes = w.bytes ∧
      Boundary img (w'.pos () .idx) ∧
      result ≠ .inr false := by
  obtain ⟨ok, v, text, error, smallV, shortText, isIdx, refused⟩ := spoilt
  have rest {ptr : Nat} {db : DB} {w' : World Unit File} (kept : w'.bytes = w.bytes ∧
      Boundary img (w'.pos () .idx)) :
      Runs (fun _ => True) w' (do
        if (ptr : Int) < 0 then pure (.inr false)
        else
          let db ← get
          if isBlank (cstr db.idxbuf) then pure (.inl ()) else pure (.inr true) :
            DbM (Unit ⊕ Bool)) db fun result _ w' =>
        w'.bytes = w.bytes ∧ Boundary img (w'.pos () .idx) ∧ result ≠ .inr false := by
    rw [if_neg (by omega)]
    refine .getThen ?_
    split
    · exact .pure ⟨kept.1, kept.2, by simp⟩
    · exact .pure ⟨kept.1, kept.2, by simp⟩
  obtain atEnd | ⟨e, found⟩ := boundary.next
  · -- the last record
    have has : HasAt (w.bytes .idx) (w.pos () .idx) (encPtr v ++ encLen text.length ++ text) := by
      rw [atEnd, isIdx, ← ok.bytes_length]
      exact HasAt.at_end ..
    refine .bind (runs_readidx smallV shortText has) fun _ _ _ first => ?_
    obtain ⟨-, -, -, fields, read⟩ := first
    rw [refused] at read
    cases read
  · have okE := ok.entry found
    have has : HasAt (w.bytes .idx) (w.pos () .idx) (encPtr e.ptr ++ encLen e.text.length ++
        e.text) := by
      rw [isIdx]
      exact (ok.entryAt_hasAt found).append _
    refine .bind (runs_readidx okE.ptr okE.textMax has) fun _ _ _ first => ?_
    obtain ⟨rfl, bytes, pos, -⟩ := first
    exact rest ⟨bytes, .inr ⟨_, e, found, pos⟩⟩

/-- Reading a data record moves nothing in the index file. -/
theorem runs_readdat :
    Runs (fun _ => True) w dbReaddat db fun _ _ w' => w'.bytes = w.bytes ∧ w'.pos () .idx = w.pos
    () .idx := by
  refine .getThen (.bind (Runs.lseek _ _ rfl) fun n db₁ w₁ first => ?_)
  obtain ⟨-, rfl, rfl⟩ := first
  refine .bind (Runs.read _) fun buffer db₂ w₂ second => ?_
  obtain ⟨-, rfl, rfl⟩ := second
  split
  · exact .abort fun _ => trivial
  split
  · exact .abort fun _ => trivial
  · exact .modifyThen (.pure ⟨rfl, by simp [World.setPos_pos]⟩)

theorem runs_nextrec (spoilt : Spoilt img (w.bytes .idx))
    (boundary : Boundary img (w.pos () .idx)) :
    Runs (fun _ => True) w dbNextrec db fun record _ w' => w'.bytes = w.bytes ∧
      Boundary img (w'.pos () .idx) ∧ record ≠ none := by
  refine .bind (Runs.lockReg rfl) fun _ db₁ w₁ first => ?_
  obtain ⟨rfl, bytes₁, pos₁⟩ := first
  have loops : Runs (fun _ => True) w₁ (Code.loop nextrecTurn ()) db₁ fun found _ w' =>
      w'.bytes = w.bytes ∧ Boundary img (w'.pos () .idx) ∧ found = true := by
    refine .loop (I := fun _ _ w' => w'.bytes = w.bytes ∧ Boundary img (w'.pos () .idx))
      (fun _ db₂ w₂ kept => ?_) ?_
    · obtain ⟨bytes₂, boundary₂⟩ := kept
      refine (runs_nextrecTurn (by rw [bytes₂]; exact spoilt) boundary₂).weaken
        fun result _ w₃ holds => ?_
      obtain ⟨bytes₃, boundary₃, more⟩ := holds
      cases result with
      | inl _ => exact ⟨bytes₃.trans bytes₂, boundary₃⟩
      | inr found => exact ⟨bytes₃.trans bytes₂, boundary₃, by cases found <;> simp_all⟩
    · rw [bytes₁, pos₁]
      exact ⟨rfl, boundary⟩
  refine .bind loops fun found db₂ w₂ second => ?_
  obtain ⟨bytes₂, boundary₂, rfl⟩ := second
  have delivers : Runs (fun _ => True) w₂ (nextrecFound true) db₂ fun record _ w' =>
      w'.bytes = w₂.bytes ∧ w'.pos () .idx = w₂.pos () .idx ∧ record ≠ none :=
    .getThen (.bind runs_readdat fun _ _ _ kept => .modifyThen (.pure ⟨kept.1, kept.2, by simp⟩))
  refine .bind delivers fun record db₃ w₃ third => ?_
  obtain ⟨bytes₃, pos₃, there⟩ := third
  refine .bind (Runs.unLock rfl) fun _ db₄ w₄ fourth => .pure ?_
  obtain ⟨rfl, bytes₄, pos₄⟩ := fourth
  refine ⟨(bytes₄.trans bytes₃).trans bytes₂, ?_, there⟩
  rw [pos₄, pos₃]
  exact boundary₂

/-- A scan of such a file comes to no end. -/
theorem Spoilt.no_scan {records : List (Bytes × Bytes)} (scan : Scan db w records db' w')
    (spoilt : Spoilt img (w.bytes .idx))
    (boundary : Boundary img (w.pos () .idx)) : False := by
  induction scan with
  | finish last => exact (Checker.Follows.running (runs_nextrec spoilt boundary) last).2.2 rfl
  | record first _ inductionHypothesis =>
    obtain ⟨bytes, boundary', -⟩ := Checker.Follows.running (runs_nextrec spoilt boundary) first
    exact inductionHypothesis (by rw [bytes]; exact spoilt) boundary'

end

/-! ## What is seen of it -/

theorem Openable.exited (openable : Openable w) (rep : DbRep (w.bytes .idx) (w.bytes .dat) d) :
    Closed (w.exit ()) d := by
  refine ⟨rep, ?_, openable⟩
  simp [World.exit, Locks.releaseAll]

theorem Refused.ok {v : Nat} (small : v ≤ ptrMax) (keyClean : NulFree key)
    (dataClean : NulFree data) (noSep : sep ∉ key)
    (valid : ValidDatlen data) (sized : (w.bytes .dat).length < 2 ^ 63)
    (short : data.length + 1 ≤ writeMax)
    (fits : Fits key data (w.bytes .dat).length) :
    (⟨v, key, (w.bytes .dat).length, data⟩ : Entry).Ok := by
  obtain ⟨lower, upper⟩ := valid
  rw [writeMax] at short
  rw [cInt_of_small (by omega)] at lower upper
  simp only [datlenMin, datlenMax] at lower upper
  refine ⟨small, keyClean, noSep, fits.1, fits.2, sized, dataClean, ?_, ?_⟩
  · change 1 ≤ data.length
    omega
  · change data.length < datlenMax
    simp only [datlenMax]
    omega

/-- Nothing of a refused store is seen afterwards: the length of the data is refused; or the key is
not bound, and either the record is refused before it is in the index file, or it is one that a scan
passes over or returns already. -/
def Unseen (w : World Unit File) (d : Layout) (key data : Bytes) : Prop :=
  ¬ValidDatlen data ∨ d.map key = none ∧
    (¬Fits key data (w.bytes .dat).length ∨ isBlank key = true ∨
      (key, data) ∈ d.img.scan recordsOff)

/-- The record is in the index file, on no list. -/
theorem Stopped.appended {w₁ : World Unit File} {d₁ : Layout} {v : Nat} (closed : Closed w d)
    (openable : Openable w')
    (rep : DbRep (w₁.bytes .idx) (w₁.bytes .dat) d₁) (map : d₁.map = Function.update d.map key none)
    (unbound : d.map key = none → d₁ = d) (keyClean : NulFree key)
    (ok : sep ∉ key → (⟨v, key, (w₁.bytes .dat).length, data⟩ : Entry).Ok)
    (small : v ≤ ptrMax)
    (short : (⟨v, key, (w₁.bytes .dat).length, data⟩ : Entry).text.length ≤ idxlenMax)
    (bytes : w'.bytes = Function.update (withData w₁ data) .idx
      (w₁.bytes .idx ++ (⟨v, key, (w₁.bytes .dat).length, data⟩ : Entry).enc)) :
    SameView w (w'.exit ()) ↔ d.map key = none ∧
      (isBlank key = true ∨ (key, data) ∈ d.img.scan recordsOff) := by
  let e : Entry := ⟨v, key, (w₁.bytes .dat).length, data⟩
  have isIdx : w'.bytes .idx = w₁.bytes .idx ++ e.enc := by rw [bytes, Function.update_self]
  have isDat : w'.bytes .dat = w₁.bytes .dat ++ (data ++ [newline]) := by
    rw [bytes, Function.update_of_ne (by decide), withData, Function.update_self]
  by_cases hasSep : sep ∈ key
  · -- no scan gets past the record
    refine iff_of_false ?_ ?_
    · rintro ⟨_, _, _, _, ⟨db₁, w₂, db₂, w₃, opens, scan⟩, _⟩
      have spoilt : Spoilt d₁.img (w'.bytes .idx) :=
        ⟨rep.wellFormed, v, e.text, _, small,
          short, by rw [isIdx, rep.index]; rfl, parseIdxbuf_sep keyClean hasSep⟩
      obtain ⟨w₄, opens', bytes₄, -, pos₄⟩ := exec_dbOpen_again (w := w'.exit ()) openable {}
      obtain ⟨same, rfl⟩ := opens.deterministic opens'
      have spoilt₂ : Spoilt d₁.img (w₂.bytes .idx) := by
        rw [bytes₄]
        exact spoilt
      exact Spoilt.no_scan scan spoilt₂ (.inl pos₄)
    · rintro ⟨_, seen⟩
      obtain blank | member := seen
      · rw [isBlank, List.all_eq_true] at blank
        exact absurd (blank _ hasSep) (by decide)
      · obtain ⟨x, e', found, -, -, rfl, -⟩ := Image.mem_scan.1 member
        exact (closed.rep.wellFormed.entry found).keySep hasSep
  · have closed' : Closed (w'.exit ()) (d₁.append e) := by
      apply openable.exited
      rw [isIdx, isDat]
      exact rep.append (ok hasSep) rfl
    rw [closed.sameView_iff closed', Layout.append_map rep, map]
    constructor
    · rintro ⟨bindings, records⟩
      have isNone : d.map key = none := by
        rw [← bindings key keyClean, Function.update_self]
      refine ⟨isNone, ?_⟩
      rw [unbound isNone] at records
      by_cases blank : isBlank key = true
      · exact .inl blank
      · refine .inr ((records (key, data)).2 (Layout.mem_append_scan.2 (.inr ⟨?_, rfl, rfl⟩)))
        exact Bool.eq_false_iff.2 blank
    · rintro ⟨isNone, seen⟩
      rw [unbound isNone]
      refine ⟨fun k _ => ?_, fun entry => ?_⟩
      · rw [← isNone, Function.update_eq_self]
      · obtain ⟨k, s⟩ := entry
        rw [Layout.mem_append_scan]
        refine ⟨.inl, ?_⟩
        rintro (member | ⟨visible, rfl, rfl⟩)
        · exact member
        · obtain blank | member := seen
          · rw [blank] at visible
            cases visible
          · exact member

/-- When a store is refused by a check and the process ends, whoever opens the database again sees
what was there before just if nothing of the store is seen. -/
theorem rejected_store_unseen_iff {flag : Int} (usable : Usable w db d) (openable : Openable w)
    (sized : (w.bytes .dat).length < 2 ^ 63) (keyClean : NulFree key) (dataClean : NulFree data)
    (rejected : Exec soloKernel (dbStore key data flag db) w (.aborted error) w')
    (check : error.isCheck = true) :
    SameView w (w'.exit ()) ↔ Unseen w d key data := by
  have closed : Closed w d := ⟨usable.rep, usable.unlocked, openable⟩
  have openable' : Openable w' := openable.exec rejected
  obtain ⟨invalid, bytes⟩ | ⟨valid, rep, map, unbound, length, small, refused⟩ | ⟨unbound, huge,
      rep, map, records⟩ :=
    usable.stopped keyClean dataClean rejected check
  · refine iff_of_true ?_ (.inl invalid)
    have closed' : Closed (w'.exit ()) d := openable'.exited (by rw [bytes]; exact usable.rep)
    exact (closed.sameView_iff closed').2 ⟨fun _ _ => rfl, fun _ => Iff.rfl⟩
  · obtain ⟨short, unfit, bytes⟩ | ⟨short, fits, far, bytes⟩ := refused
    · -- the data alone is left
      rename_i w₁ d₁ v
      have unfit : ¬Fits key data (w.bytes .dat).length := by
        rw [← length]
        exact unfit
      have closed' : Closed (w'.exit ()) d₁ := by
        apply openable'.exited
        rw [bytes, withData, Function.update_self, Function.update_of_ne (by decide)]
        exact rep.grow _
      rw [closed.sameView_iff closed', map]
      constructor
      · intro ⟨bindings, _⟩
        refine .inr ⟨?_, .inl unfit⟩
        rw [← bindings key keyClean, Function.update_self]
      · intro unseen
        obtain invalid | ⟨isNone, -⟩ := unseen
        · exact absurd valid invalid
        · rw [unbound isNone]
          exact ⟨fun _ _ => by rw [← isNone, Function.update_eq_self], fun _ => Iff.rfl⟩
    · rw [Stopped.appended closed openable' rep map unbound keyClean
        (fun noSep => Refused.ok small keyClean dataClean noSep valid
        (length ▸ sized) short fits) small fits.2 bytes]
      have fits : Fits key data (w.bytes .dat).length := by
        rw [← length]
        exact fits
      simp [Unseen, valid, fits]
  · refine iff_of_true ?_ (.inr ⟨unbound, .inl fun fits => ?_⟩)
    · exact (closed.sameView_iff (openable'.exited rep)).2 ⟨fun k _ => by rw [map], records⟩
    · have long := fits.2
      simp only [idxText, List.length_append, idxlenMax] at long
      omega

/-- A second record is refused when its data has been appended: its index record is too long by a
digit. -/
theorem rejected_store_unseen_iff_appended : ∃ db w error w', Exec soloKernel
    (dbStore (List.replicate 1019 98) (List.replicate 9 120) dbInsert db) w (.aborted error) w' ∧
      error.isCheck = true ∧
      w'.bytes .dat = w.bytes .dat ++ (List.replicate 9 120 ++ [newline]) ∧
        SameView w (w'.exit ()) := by
  let key : Bytes := List.replicate 1019 98
  let data : Bytes := List.replicate 9 120
  have ran : (((dbOpen ⟨true, true⟩).returns soloKernel 10000 ({}, .absent)).bind fun (ok, s₁) =>
      ((dbStore [97] [120] dbInsert).returns soloKernel 10000 s₁).bind fun (rc, s) =>
      ((dbFetch key).returns soloKernel 10000 s).bind fun (before, _) =>
      ((dbStore key data dbInsert).aborts soloKernel 10000 s).map fun (error, w') =>
        decide (ok = true ∧ rc = 0 ∧ before = none ∧ error = .writeidxLength ∧
          s.2.bytes .dat = [120, newline] ∧
          w'.bytes .dat = [120, newline] ++ (data ++ [newline]))) = some true := by
    decide +kernel
  simp only [Option.bind_eq_some_iff, Option.map_eq_some_iff] at ran
  obtain ⟨⟨ok, s₁⟩, opens, ⟨rc, s⟩, stores, ⟨before, s₂⟩, fetches, ⟨error, w'⟩, stops, same⟩ := ran
  obtain ⟨rfl, rfl, rfl, rfl, dat, dat'⟩ := of_decide_eq_true same
  have opened := Code.returns_sound opens
  have stored := Code.returns_sound stores
  have rejected : Exec soloKernel (dbStore key data dbInsert s.1) s.2 (.aborted .writeidxLength)
    w' := Code.aborts_sound stops
  obtain ⟨start, dat₁, -⟩ := Usable.of_open rfl opened
  have plain : Plain s₁.2 (.store [97] [120] .insert) := by
    refine ⟨by decide, by decide, ?_⟩
    rw [dat₁]
    decide
  obtain ⟨_, impossible, -⟩ | ⟨_, _, d, returned, usable, -⟩ :=
    start.store_plain plain (by decide) stored
  · cases impossible
  cases returned
  have unbound : d.map key = none :=
    usable.map_of_fetch (by decide +kernel) (Code.returns_sound fetches)
  have openable : Openable s.2 := (Openable.of_open opened).exec stored
  refine ⟨s.1, s.2, _, w', rejected, rfl, dat'.trans (by rw [dat]),
    (rejected_store_unseen_iff usable openable ?_
    (by decide +kernel) (by decide) rejected rfl).2 (.inr ⟨unbound, .inl ?_⟩)⟩
  · rw [dat]
    decide
  · rw [dat]
    decide +kernel

/-- A record is replaced by one whose index record is too long by a digit: the old record is
gone. -/
theorem refused_replacement_loses_record :
    ∃ (key data : Bytes) (db₁ db : DB) (w₁ w w' : World Unit File) (d : Layout),
    Exec soloKernel (dbOpen ⟨true, true⟩ {}) .absent (.returned (true, db₁)) w₁ ∧
      Exec soloKernel (dbStore key [120] dbInsert db₁) w₁ (.returned (0, db)) w ∧ Usable w db d ∧
      Exec soloKernel (dbStore key data dbReplace db) w (.aborted .writeidxLength) w' ∧
        ¬SameView w (w'.exit ()) := by
  let key : Bytes := List.replicate 1019 97
  let data : Bytes := List.replicate 9 120
  have ran : (((dbOpen ⟨true, true⟩).returns soloKernel 10000 ({}, .absent)).bind fun (ok, s₁) =>
      ((dbStore key [120] dbInsert).returns soloKernel 10000 s₁).bind fun (rc, s) =>
      ((dbStore key data dbReplace).aborts soloKernel 10000 s).bind fun (error, w') =>
      ((dbOpen ⟨false, false⟩).returns soloKernel 10000 ({}, s.2)).bind fun (ok₂, s₂) =>
      ((dbFetch key).returns soloKernel 10000 s₂).bind fun (before, _) =>
      ((dbOpen ⟨false, false⟩).returns soloKernel 10000 ({}, w'.exit ())).bind fun (ok₃, s₃) =>
      ((dbFetch key).returns soloKernel 10000 s₃).map fun (after, _) =>
        decide (ok = true ∧ rc = 0 ∧ error = .writeidxLength ∧ ok₂ = true ∧ before = some [120] ∧
          ok₃ = true ∧ after = none)) =
      some true := by
    decide +kernel
  simp only [Option.bind_eq_some_iff, Option.map_eq_some_iff] at ran
  obtain ⟨⟨ok, s₁⟩, opens, ⟨rc, s⟩, stores, ⟨error, w'⟩, stops, ⟨ok₂, s₂⟩, opens₂, ⟨before, s₄⟩,
    fetches₂, ⟨ok₃, s₃⟩, opens₃,
    ⟨after, s₅⟩, fetches₃, same⟩ := ran
  obtain ⟨rfl, rfl, rfl, rfl, rfl, rfl, rfl⟩ := of_decide_eq_true same
  have opened := Code.returns_sound opens
  have stored := Code.returns_sound stores
  obtain ⟨start, dat, -⟩ := Usable.of_open rfl opened
  have plain : Plain s₁.2 (.store key [120] .insert) := by
    refine ⟨by decide +kernel, by decide, ?_⟩
    rw [dat]
    decide
  obtain ⟨_, impossible, -⟩ | ⟨rc, db', d, returned, usable, -⟩ :=
    start.store_plain plain (by decide +kernel) stored
  · cases impossible
  cases returned
  refine ⟨key, data, s₁.1, s.1, s₁.2, s.2, w', d, opened, stored, usable, Code.aborts_sound stops,
    fun view => ?_⟩
  have there : Fetched s.2 key (some [120]) :=
    ⟨_, _, _, _, Code.returns_sound opens₂, Code.returns_sound fetches₂⟩
  have gone : Fetched (w'.exit ()) key none :=
    ⟨_, _, _, _, Code.returns_sound opens₃, Code.returns_sound fetches₃⟩
  have still := (view.1 key (by decide +kernel) _).1 there
  cases still.deterministic gone

end Apue.Db
