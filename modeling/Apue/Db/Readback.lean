import Apue.Db.Cursor

/-! # Keys that can be read back

The format has two characters it cannot have everywhere: the separator, and the blank of a key that
is nothing but blanks, which marks a deleted record.  `db_store` looks at the lengths only.  From a
new database on, as long as no key stored has a separator, what is stored under a key that is not
blank is read back, and no record stops a search.
-/

namespace Apue.Db

open Apue.Base St

variable {d : Layout} {w w' : World Unit File} {db db' : DB} {key data : Bytes} {flag : Flag}
  {α : Type}

/-! ## Data longer than a write

The length check of `db_store` is made on an `int`, so it also accepts data of 4 GiB and a little
more.  No `write` takes that much, and the store stops there if it comes so far.
-/

/-- A `write` transfers at most `writeMax` bytes. -/
def shortWrites : Checker (FileSig File) Err Unit where
  guard _ _ := True
  next _ c answer _ := match c, answer with
    | .write _ _, count => LE.le (α := Nat) count writeMax
    | _, _ => True
  stops _ error := error.ofReadidx = false

/-- The code has no check that is one of `_db_readidx`. -/
abbrev Unread (m : DbM α) : Prop := shortWrites.Preserves (fun _ _ => True) m

namespace Unread

open Checker (Preserves)

theorem abort {error : Err} (other : error.ofReadidx = false) : Unread (Code.abort error : DbM α) :=
  Preserves.abort fun _ _ _ => other

theorem modified (f : DB → DB) : Unread (modify f : DbM PUnit) :=
  Preserves.modified fun _ _ _ => trivial

theorem sys (c : FileCall File) : Unread (Db.sys c) :=
  Preserves.call (fun _ _ _ => trivial) fun _ _ _ _ _ _ => trivial

variable {error : Err} (other : error.ofReadidx = false)

include other

theorem lseek (file : File) (offset : Int) (whence : Whence) :
    Unread (Db.lseek file offset whence error) := by
  refine .bind (sys _) fun (result : Option Nat) => ?_
  cases result with
  | none => exact abort other
  | some offset => exact .pure offset

theorem write (file : File) (buffer : Bytes) : Unread (Db.write file buffer error) :=
  .bind (sys _) fun (_ : Nat) => .ite (.pure _) (abort other)

theorem lockReg (file : File) (type : LockType) (offset len : Nat) :
    Unread (Db.lockReg file type offset len error) :=
  .bind (sys _) fun (_ : Bool) => .ite (.pure _) (abort other)

theorem unLock (file : File) (offset len : Nat) : Unread (Db.unLock file offset len error) :=
  .bind (sys _) fun (_ : Bool) => .ite (.pure _) (abort other)

end Unread

theorem Unread.whenAppending {m : DbM Unit} (unread : Unread m) (whence : Whence) :
    Unread (Db.whenAppending whence m) :=
  .ite unread (.pure _)

/-- What the checker has found holds of every run. -/
theorem shortWrites_exec {m : DbM α} {Q : α → DB → Unit → Prop}
    (keeps : shortWrites.Keeps () m db Q)
    {outcome : Outcome Err (α × DB)} (runs : Exec soloKernel (m db) w outcome w') :
    outcome.Satisfies (fun result => Q result.1 result.2 ()) fun error => error.ofReadidx =
      false := by
  have step {t : Unit} {w₁ w₂ : World Unit File} {c : FileCall File}
      {answer : FileCall.Answer c} (_ : True)
      (_ : shortWrites.guard t c) (answers : soloKernel c w₁ = some (answer, w₂)) :
      ∃ t', shortWrites.next t c answer t' ∧ True := by
    refine ⟨(), ?_, trivial⟩
    cases c with
    | write file buffer =>
      cases answers
      exact List.length_take_le ..
    | _ => trivial
  have follows : shortWrites.Follows () (m db) fun result t => Q result.1 result.2 t := keeps
  obtain ⟨_, -, holds⟩ := Checker.Follows.exec (R := fun _ _ => True) step runs follows trivial
  exact holds

/-- `_db_writedat` does not return. -/
theorem keeps_writedat_long (long : writeMax < strlen data + 1) (offset : Int) (whence : Whence) :
    shortWrites.Keeps () (dbWritedat data offset whence) db fun _ _ _ => False := by
  have lock : Unread (whenAppending whence (writewLock .dat 0 0 .writedatLock)) :=
    .whenAppending (Unread.lockReg rfl ..) whence
  have seek : Unread (lseek .dat offset whence .writedatLseek) := Unread.lseek rfl ..
  refine .bind (lock.keeps trivial) fun _ db₁ _ _ => .bind (seek.keeps trivial)
      fun datoff db₂ _ _ =>
    .bind (.modified (Q := fun _ _ _ => True) trivial) ?_
  intro _ db₃ _ _
  refine .bind (M := fun _ _ _ =>
    False) (.bind (M := fun (count : Nat) _ _ => count ≤ writeMax) (.call trivial ?_) ?_) ?_
  · exact fun count _ short => short
  · intro count db₄ _ short
    rw [if_neg]
    · exact .abort rfl
    · rw [List.length_append, List.length_singleton]
      change ¬count = strlen data + 1
      omega
  · exact fun _ _ _ impossible => impossible.elim

theorem exec_writedat_long (long : writeMax < strlen data + 1) {offset : Int} {whence : Whence}
    {outcome : Outcome Err (Unit × DB)}
    (runs : Exec soloKernel (dbWritedat data offset whence db) w outcome w') :
    ∃ error, outcome = .aborted error ∧ error.ofReadidx = false := by
  have holds := shortWrites_exec (keeps_writedat_long long offset whence) runs
  cases outcome with
  | returned value => exact holds.elim
  | aborted error => exact ⟨error, rfl, holds⟩

/-- The code stops outside `_db_readidx`, or it does what the other code does and returns a value as
said. -/
structure Mirrors (m m' : DbM α) (Q : α → Prop) : Prop where
  follows : ∀ {db : DB} {w w' : World Unit File} {outcome : Outcome Err (α × DB)},
    Exec soloKernel (m db) w outcome w' →
    (∃ error, outcome = .aborted error ∧ error.ofReadidx = false) ∨
      Exec soloKernel (m' db) w outcome w' ∧ ∀ value db', outcome = .returned (value, db') → Q value

namespace Mirrors

variable {β : Type} {m m' : DbM α} {f f' : α → DbM β} {P : α → Prop} {Q : β → Prop}

theorem same (m : DbM α) : Mirrors m m fun _ => True :=
  ⟨fun runs => .inr ⟨runs, fun _ _ _ => trivial⟩⟩

theorem pure {value : α} (holds : P value) :
    Mirrors (Pure.pure value : DbM α) (Pure.pure value) P := by
  refine ⟨fun runs => .inr ⟨runs, fun value' db' returns => ?_⟩⟩
  cases runs
  cases returns
  exact holds

theorem bind (first : Mirrors m m' P) (second : ∀ value, P value → Mirrors (f value) (f' value) Q) :
    Mirrors (m >>= f) (m' >>= f') Q := by
  constructor
  intro db w w' outcome runs
  obtain ⟨error, rfl, stops⟩ | ⟨⟨value, db₁⟩, w₁, returns, rest⟩ := Exec.of_bind runs
  · obtain ⟨error', same, elsewhere⟩ | ⟨stops', -⟩ := first.follows stops
    · cases same
      exact .inl ⟨_, rfl, elsewhere⟩
    · exact .inr ⟨Exec.bind_aborted stops', fun _ _ impossible => by cases impossible⟩
  · obtain ⟨error', impossible, -⟩ | ⟨returns', holds⟩ := first.follows returns
    · cases impossible
    · obtain stops | ⟨rest', holds'⟩ := (second value (holds _ _ rfl)).follows rest
      · exact .inl stops
      · exact .inr ⟨Exec.bind returns' rest', holds'⟩

theorem ite {c : Prop} [Decidable c] {m n m' n' : DbM β} (yes : c → Mirrors m m' Q)
    (no : ¬c → Mirrors n n' Q) :
    Mirrors (if c then m else n) (if c then m' else n') Q := by
  split
  case isTrue holds => exact yes holds
  case isFalse fails => exact no fails

end Mirrors

section

variable {data' : Bytes} (long : writeMax < strlen data + 1)

include long

theorem mirrors_writedat (offset : Int) (whence : Whence) :
    Mirrors (dbWritedat data offset whence) (dbWritedat data' offset whence)
    fun _ => False := ⟨fun runs => .inl (exec_writedat_long long runs)⟩

theorem mirrors_storeAppend (ptrval : Int) :
    Mirrors (storeAppend key data ptrval) (storeAppend key data' ptrval)
    fun _ => False := .bind (mirrors_writedat long 0 .fromEnd) fun _ impossible => impossible.elim

theorem mirrors_storeNew (keylen datlen : Int) :
    Mirrors (dbStoreNew key data keylen datlen) (dbStoreNew key data' keylen datlen)
    fun _ => False := by
  refine .bind (.same _) fun db _ => .bind (.same _) fun ptrval _ => .bind (.same _) fun free _ =>
    .ite (fun _ => ?_) fun _ => ?_
  · exact .bind (mirrors_storeAppend long ptrval) fun _ impossible => impossible.elim
  · refine .bind (P := fun _ => False) (.bind (.same _) fun db _ => ?_) fun _ impossible =>
      impossible.elim
    exact .bind (mirrors_writedat long db.datoff .set) fun _ impossible => impossible.elim

theorem mirrors_storeOld (datlen : Int) :
    Mirrors (dbStoreOld key data datlen) (dbStoreOld key data' datlen) fun _ => False := by
  refine .bind (.same _) fun db _ => .ite (fun _ => ?_) fun _ => ?_
  · refine .bind (.same _) fun _ _ => .bind (.same _) fun db _ => .bind (.same _) fun ptrval _ => ?_
    exact .bind (mirrors_storeAppend long ptrval) fun _ impossible => impossible.elim
  · exact .bind (mirrors_writedat long db.datoff .set) fun _ impossible => impossible.elim

/-- A store of such data goes the way of a store of other data of the same length as an `int`, and
does not return 0. -/
theorem mirrors_store (same : cInt (strlen data' + 1 : Nat) = cInt (strlen data + 1 : Nat))
    (flag : Int) :
    Mirrors (dbStore key data flag) (dbStore key data' flag) fun rc => rc ≠ 0 := by
  unfold dbStore
  refine .ite (fun _ => .pure (by decide)) fun _ => ?_
  dsimp only
  rw [show cInt ((strlen data' : Int) + 1) = cInt ((strlen data : Int) + 1) from same]
  refine .ite (fun _ => ⟨fun runs => ?_⟩) fun _ => ?_
  · cases runs
    exact .inl ⟨_, rfl, rfl⟩
  · refine .bind (.same _) fun found _ => .bind (P := fun rc => rc ≠ 0) ?_ fun rc nonzero =>
      .bind (.same _) fun _ _ => .pure nonzero
    refine .ite (fun _ => .ite (fun _ => ?_) fun _ => ?_) fun _ => .ite (fun _ => ?_) fun _ => ?_
    · exact .bind (.same _) fun _ _ => .pure (by decide)
    · exact .bind (mirrors_storeNew long _ _) fun _ impossible => impossible.elim
    · exact .bind (.same _) fun _ _ => .pure (by decide)
    · exact .bind (mirrors_storeOld long _) fun _ impossible => impossible.elim

end

/-! ## Calls -/

/-- The calls considered: strings without a null byte, and a length of the data file that an `off_t`
can say. -/
def Plain (w : World Unit File) : Op → Prop
  | .fetch key => NulFree key
  | .delete key => NulFree key
  | .store key data _ => NulFree key ∧ NulFree data ∧ (w.bytes .dat).length < 2 ^ 63
  | .rewind => True
  | .nextrec => True
  | .open _ => False

instance (w : World Unit File) : (op : Op) → Decidable (Plain w op)
  | .fetch key => inferInstanceAs (Decidable (NulFree key))
  | .store .. => inferInstanceAs (Decidable (_ ∧ _))
  | .delete key => inferInstanceAs (Decidable (NulFree key))
  | .rewind => inferInstanceAs (Decidable True)
  | .nextrec => inferInstanceAs (Decidable True)
  | .open _ => inferInstanceAs (Decidable False)

/-- No key that the calls have stored has a separator. -/
def Legible (calls : List (Op × Res)) : Prop :=
  ∀ key data flag, (.store key data flag, .rc 0) ∈ calls → sep ∉ key

/-! ## Stores of legible keys -/

theorem mapStore_zero {m : Map} (zero : (mapStore m key data flag).1 = 0) :
    (mapStore m key data flag).2 key = some data := by
  cases flag <;> cases bound : m key <;> simp_all [mapStore]

/-- A store of a key without a separator runs to its end, or stops at a check of its own. -/
theorem Usable.store_storable (usable : Usable w db d) (storable : Storable key data)
    (sized : (w.bytes .dat).length < 2 ^ 63)
    {outcome : Outcome Err (Int × DB)}
    (runs : Exec soloKernel (dbStore key data flag.code db) w outcome w') :
    (∃ error, outcome = .aborted error ∧ error.ofReadidx = false) ∨
      ∃ rc db' d', outcome = .returned (rc, db') ∧
      Usable w' db' d' ∧ d'.lost = d.lost ∧ (rc = 0 → d'.map key = some data) := by
  have limit : Limit (Usable.roomy d) anyCall (fun error _ => error.ofReadidx =
      false) () key data flag
      (Usable.start d w (.store key data flag)) := by
    refine ⟨fun {τ} _ atEnd => ?_, fun _ _ _ _ _ isError => ?_, fun {τ e} _ atEnd length => ?_,
      fun _ _ _ _ _ _ _ _ _ => rfl,
      fun _ _ => rfl⟩
    · rw [atEnd.alone alone]
      exact sized
    · cases isError with
      | inl same => rw [same]; rfl
      | inr same => rw [same]; rfl
    · have same : τ.img.size = d.img.size := atEnd.alone alone
      simp only [Usable.roomy]
      omega
  cases usable.store storable limit with
  | inl returned =>
    obtain ⟨db', w₁, d', returns, usable', map, lost⟩ := returned
    obtain ⟨rfl, rfl⟩ := runs.deterministic returns
    refine .inr ⟨_, db', d', rfl, usable', lost, fun zero => ?_⟩
    rw [map]
    exact mapStore_zero zero
  | inr aborted =>
    obtain ⟨error, τ, stops, -, elsewhere⟩ := aborted
    exact .inl ⟨error, (runs.deterministic stops).1, elsewhere⟩

/-- Data whose length is valid as an `int` only is too long for a `write`, and it is checked as data
of a length that is valid. -/
theorem Storable.exists_of_cInt (keyClean : NulFree key) (keySep : sep ∉ key)
    (dataClean : NulFree data) (length : ¬(1 ≤ data.length ∧ data.length < datlenMax))
    (valid : (datlenMin : Int) ≤ cInt (data.length + 1 : Nat) ∧
      cInt (data.length + 1 : Nat) ≤ datlenMax) :
    writeMax < strlen data + 1 ∧ ∃ data', Storable key data' ∧
      cInt (strlen data' + 1 : Nat) = cInt (strlen data + 1 : Nat) := by
  have long : writeMax < data.length + 1 := by
    by_contra short
    rw [writeMax] at short
    rw [cInt_of_small (by omega)] at valid
    simp only [datlenMin, datlenMax] at valid length
    omega
  obtain ⟨k, isK⟩ : ∃ k : Nat, cInt (data.length + 1 : Nat) = (k + 1 : Nat) := by
    refine ⟨(cInt (data.length + 1 : Nat)).toNat - 1, ?_⟩
    simp only [datlenMin] at valid
    omega
  rw [isK] at valid
  simp only [datlenMin, datlenMax] at valid
  have takeLength : (data.take k).length = k := by
    rw [List.length_take, writeMax] at *
    omega
  have takeClean : NulFree (data.take k) := fun member => dataClean (List.mem_of_mem_take member)
  refine ⟨by rwa [strlen_of_nulFree dataClean], data.take k,
    ⟨keyClean, keySep, takeClean, ?_, ?_⟩, ?_⟩
  · omega
  · rw [takeLength, datlenMax]
    omega
  · rw [strlen_of_nulFree takeClean, strlen_of_nulFree dataClean, takeLength, isK,
      cInt_of_small (by omega)]

theorem Usable.store_plain (usable : Usable w db d) (plain : Plain w (.store key data flag))
    (keySep : sep ∉ key)
    {outcome : Outcome Err (Int × DB)}
    (runs : Exec soloKernel (dbStore key data flag.code db) w outcome w') :
    (∃ error, outcome = .aborted error ∧ error.ofReadidx = false) ∨
      ∃ rc db' d', outcome = .returned (rc, db') ∧
      Usable w' db' d' ∧ d'.lost = d.lost ∧ (rc = 0 → d'.map key = some data) := by
  obtain ⟨keyClean, dataClean, sized⟩ := plain
  by_cases length : 1 ≤ data.length ∧ data.length < datlenMax
  · exact usable.store_storable ⟨keyClean, keySep, dataClean, length.1, length.2⟩ sized runs
  by_cases valid : (datlenMin : Int) ≤ cInt (data.length + 1 : Nat) ∧
    cInt (data.length + 1 : Nat) ≤ datlenMax
  · obtain ⟨long, data', storable, sameLength⟩ :=
      Storable.exists_of_cInt keyClean keySep dataClean length valid
    obtain stops | ⟨runs', nonzero⟩ := (mirrors_store long sameLength flag.code).follows runs
    · exact .inl stops
    · obtain stops | ⟨rc, db', d', rfl, usable', lost, -⟩ :=
        usable.store_storable storable sized runs'
      · exact .inl stops
      · exact .inr ⟨rc, db', d', rfl, usable', lost, fun zero => absurd zero (nonzero rc db' rfl)⟩
  · unfold dbStore at runs
    rw [if_neg flag.code_known] at runs
    rw [strlen_of_nulFree dataClean] at runs
    rw [if_pos (by
      rw [not_and_or, not_le, not_le] at valid
      exact valid)] at runs
    cases runs
    exact .inl ⟨_, rfl, rfl⟩

/-! ## Stores of keys with a separator

No record has such a key, so the search of `db_store` finds none: a replacement is refused, and what
else is stored is written.
-/

/-- Run from `w`, the code does not stop in `_db_readidx`. -/
def Elsewhere (m : DbM α) (db : DB) (w : World Unit File) : Prop :=
  ∀ error w', Exec soloKernel (m db) w (.aborted error) w' → error.ofReadidx = false

namespace Elsewhere

theorem after {β : Type} {m : DbM α} {f : α → DbM β} {value : α}
    (returns : Exec soloKernel (m db) w (.returned (value, db')) w')
    (rest : Elsewhere (f value) db' w') : Elsewhere (m >>= f) db w := by
  intro error w'' stops
  obtain ⟨_, same, stops⟩ | ⟨⟨value', db''⟩, w₁, returns', stops⟩ := Exec.of_bind stops
  · cases (stops.deterministic returns).1
  · obtain ⟨same, rfl⟩ := returns'.deterministic returns
    cases same
    exact rest error w'' stops

theorem bind {β : Type} {m : DbM α} {f : α → DbM β} (first : Elsewhere m db w)
    (second : ∀ value, Unread (f value)) :
    Elsewhere (m >>= f) db w := by
  intro error w' stops
  obtain ⟨_, same, stops⟩ | ⟨⟨value, db'⟩, w₁, -, stops⟩ := Exec.of_bind stops
  · cases same
    exact first _ _ stops
  · exact shortWrites_exec ((second value).keeps trivial) stops

theorem of_unread {m : DbM α} (unread : Unread m) : Elsewhere m db w := fun _ _ stops =>
  shortWrites_exec (unread.keeps trivial) stops

end Elsewhere

namespace Unread

theorem writedat (data : Bytes) (offset : Int) (whence : Whence) :
    Unread (dbWritedat data offset whence) := by
  refine .bind (whenAppending (lockReg rfl ..) whence) fun _ => .bind (lseek rfl ..) fun _ =>
    .bind (modified _) fun _ => ?_
  exact .bind (write rfl ..) fun _ => whenAppending (unLock rfl ..) whence

theorem writeidx (key : Bytes) (offset : Int) (whence : Whence) (ptrval : Int) :
    Unread (dbWriteidx key offset whence ptrval) := by
  refine .bind (modified _) fun _ =>
    .ite (abort rfl) (.get fun _ => .ite (abort rfl) (.bind (modified _) fun _ => ?_))
  refine .ite (abort rfl) (.get fun _ => .bind (whenAppending (lockReg rfl ..) whence) fun _ => ?_)
  refine .bind (lseek rfl ..) fun _ => .bind (modified _) fun _ => .bind (write rfl ..) fun _ => ?_
  exact whenAppending (unLock rfl ..) whence

theorem writeptr (offset ptrval : Int) : Unread (dbWriteptr offset ptrval) :=
  .ite (abort rfl) (.bind (lseek rfl ..) fun _ => write rfl ..)

theorem storeAppend (key data : Bytes) (ptrval : Int) : Unread (Db.storeAppend key data ptrval) :=
  .bind (writedat ..) fun _ => .bind (writeidx ..) fun _ => .get fun _ => writeptr ..

theorem storeReuse (key data : Bytes) (ptrval : Int) : Unread (Db.storeReuse key data ptrval) :=
  .get fun _ => .bind (writedat ..) fun _ => .get fun _ => .bind (writeidx ..) fun _ =>
    .get fun _ => writeptr ..

theorem unlockChain {error : Err} (other : error.ofReadidx = false) :
    Unread (Db.unlockChain error) :=
  .get fun _ => unLock other ..

end Unread

/-- The insertion stops in one of the writers, if at all. -/
theorem elsewhere_storeNew {σ : St Unit} {op : Op} {keylen datlen : Int} {room : Nat}
    (onChain : OnChain (chainOff (dbHash nhashDef key)) db) (inv : Coherent room σ)
    (locked : Locked σ () op key .write σ.map) :
    Elsewhere (dbStoreNew key data keylen datlen) db σ.w := by
  have reads := locked.reads
  have listed : (keyPlace key).Listed := dbHash_lt key
  obtain ⟨_, db₁, σ₁, read, inv₁, -, rfl, isDb, isσ₁, -⟩ :=
    returns_alone (triple_readptr listed reads locked.chain.head) inv
  rw [isDb, show (keyPlace key).slot = db.chainoff from onChain.chain.symm] at read
  have locked₁ : Locked σ₁ () op key .write σ₁.map := by
    rw [isσ₁]
    exact locked.seek _ _
  obtain ⟨free, db₂, σ₂, found, -⟩ := returns_alone (triple_findfree onChain locked₁) inv₁
  have rest (ptrval : Int) : Unread (if free < 0 then (do
      storeAppend key data ptrval
      modify fun db => { db with cntStor1 := db.cntStor1 + 1 })
    else do
      storeReuse key data ptrval
      modify fun db => { db with cntStor2 := db.cntStor2 + 1 } : DbM Unit) :=
    .ite (.bind (Unread.storeAppend ..) fun _ => Unread.modified _)
      (.bind (Unread.storeReuse ..) fun _ => Unread.modified _)
  exact .after (.ret _ _) (.after read (.after found (.of_unread (rest _))))

/-- A replacement of a key that is not there is refused. -/
theorem triple_refused {σ₀ σ : St Unit} {room : Nat}
    (start : Until () σ₀ σ) (onChain : OnChain (chainOff (dbHash nhashDef key)) db)
    (locked : Locked σ () (.store key data .replace) key .write σ.map)
    (unbound : σ.map key = none) :
    Triple (discipline room anyCall) () (fun _ _ => False) σ (do
      let rc ← (do
        modify fun db => { db with cntStorerr := db.cntStorerr + 1 }
        pure (-1))
      unlockChain .storeUnlock
      pure rc) db fun rc db' σ' =>
      Updated σ₀ () (.store key data .replace) (mapStore · key data .replace) rc db' σ' := by
  refine .bind (M := fun rc db' σ' => rc = -1 ∧ OnChain (chainOff (dbHash nhashDef key)) db' ∧
    σ' = σ) ?_ ?_
  · exact .modifyThen (.pure ⟨rfl, ⟨onChain.nhash, onChain.hashoff, onChain.chain⟩, rfl⟩)
  · rintro _ _ σ' ⟨rfl, onChain', isσ'⟩
    rw [isσ']
    refine triple_unlockUpdated (c := id) start onChain' locked (Since.refl () key σ).kept
      (id_local _) fun s agrees => ?_
    simp [dbSpec, mapStore, agrees, unbound]

theorem Usable.store_separator (usable : Usable w db d) (clean : NulFree key)
    (separated : sep ∈ key)
    {outcome : Outcome Err (Int × DB)}
    (runs : Exec soloKernel (dbStore key data flag.code db) w outcome w') :
    (∃ error, outcome = .aborted error ∧ error.ofReadidx = false) ∨
      ∃ rc db', outcome = .returned (rc, db') ∧ (rc = 0 ∨ ∃ d', Usable w' db' d') := by
  unfold dbStore at runs
  rw [if_neg flag.code_known] at runs
  split at runs
  · cases runs
    exact .inl ⟨_, rfl, rfl⟩
  obtain ⟨r, db₁, σ₁, finds, inv₁, -, onChain, locked, visited, located, -, -, lost, alone₁⟩ :=
    returns_alone
    (triple_findAndLock clean true (usable.ready (.store key data flag)) usable.nhash
      usable.hashoff)
    (usable.coherent (Nat.le_refl _) _)
  obtain ⟨rfl, unbound⟩ : r = -1 ∧ σ₁.map key = none := by
    obtain ⟨-, _, x, e, _, -, -, found, same, -⟩ | ⟨isR, -, absent⟩ := located
    · have plain := (inv₁.img.entry found).keySep
      rw [same] at plain
      exact absurd separated plain
    · exact ⟨isR, locked.chain.lookup_none absent⟩
  have rest := Exec.after runs finds
  have rest : Exec soloKernel ((do
      let rc ← storeFound key data (cInt (strlen key)) (cInt (strlen data + 1)) flag.code (-1)
      unlockChain .storeUnlock
      pure rc : DbM Int) db₁) σ₁.w outcome w' := rest
  unfold storeFound at rest
  rw [if_pos (show (-1 : Int) < 0 by decide)] at rest
  by_cases isReplace : flag = .replace
  · -- the key is not there to be replaced
    subst isReplace
    rw [if_pos (show Flag.replace.code = dbReplace from rfl)] at rest
    have start : Until () (Usable.start d w (.store key data .replace)) σ₁ :=
      ⟨lost.members, fun only => by rw [alone₁ only]; exact ⟨rfl, rfl, rfl⟩⟩
    obtain ⟨rc, db', τ, runs', inv, -, holds⟩ :=
      returns_alone (triple_refused start onChain locked unbound) inv₁
    obtain ⟨rfl, rfl⟩ := rest.deterministic runs'
    exact .inr ⟨rc, db', rfl,
      .inr ⟨τ.layout, (inv.usable holds.finished.holding holds.nhash holds.hashoff).1⟩⟩
  · rw [if_neg (mt Flag.code_eq_dbReplace.mp isReplace)] at rest
    cases outcome with
    | aborted error =>
      have unlocks (rc : Int) : Unread (unlockChain .storeUnlock >>= fun _ => pure rc : DbM Int) :=
        .bind (Unread.unlockChain rfl) fun _ => .pure rc
      exact .inl ⟨error, rfl,
        Elsewhere.bind (.bind (elsewhere_storeNew onChain inv₁ locked) fun _ => .pure 0) unlocks
        error w' rest⟩
    | returned result =>
      obtain ⟨⟨rc, db₂⟩, w₂, stored, last⟩ := Exec.of_bind_returned rest
      obtain ⟨⟨_, db₃⟩, w₃, -, isZero⟩ := Exec.of_bind_returned stored
      cases isZero
      obtain ⟨⟨_, db₄⟩, w₄, -, last⟩ := Exec.of_bind_returned last
      cases last
      exact .inr ⟨0, _, rfl, .inl rfl⟩

/-! ## Runs -/

/-- The operations that search for a key. -/
def Op.onKey : Op → Bool
  | .fetch _ | .store .. | .delete _ => true
  | _ => false

/-- One call: it is not stopped by an index record, and the files are a database again after it
returns, unless it has stored a key with a separator. -/
theorem Usable.plain (usable : Usable w db d) {op : Op} (plain : Plain w op)
    {outcome : Outcome Err (Res × DB)}
    (runs : Exec soloKernel (dbCall op db) w outcome w') :
    (op.onKey = true → ∀ error, outcome = .aborted error → error.ofReadidx = false) ∧
      ∀ res db', outcome = .returned (res, db') → Legible [(op, res)] → ∃ d', Usable w' db' d' := by
  have other (ordinary : Ordinary w op) (res : Res) (db' : DB) (returns : outcome =
      .returned (res, db'))
      (_ : Legible [(op, res)]) : ∃ d', Usable w' db' d' := by
    obtain ⟨d', -, -, usable'⟩ := usable.ordinary ordinary runs
    exact ⟨d', usable' res db' returns⟩
  have returned (admits : Admits w op) : ∀ error, outcome = .aborted error →
      error.ofReadidx = false := by
    obtain ⟨res, db', w₁, d', returns, -⟩ := usable.call admits
    obtain ⟨rfl, -⟩ := runs.deterministic returns
    intro error impossible
    cases impossible
  cases op with
  | fetch key => exact ⟨fun _ => returned plain, other plain⟩
  | delete key => exact ⟨fun _ => returned plain, other plain⟩
  | rewind => exact ⟨fun onKey => (by cases onKey), other plain⟩
  | nextrec => exact ⟨fun onKey => (by cases onKey), other plain⟩
  | «open» oflag => exact plain.elim
  | store key data flag =>
    have stored {stop : Outcome Err (Int × DB)} {w₁ : World Unit File}
        (stores : Exec soloKernel (dbStore key data flag.code db) w stop w₁) :
        (∃ error, stop = .aborted error ∧ error.ofReadidx = false) ∨
          ∃ rc db', stop = .returned (rc, db') ∧ (Legible [(.store key data flag, .rc rc)] →
            ∃ d', Usable w₁ db' d') := by
      by_cases keySep : sep ∈ key
      · obtain stops | ⟨rc, db', returns, zero | usable'⟩ :=
          usable.store_separator plain.1 keySep stores
        · exact .inl stops
        · exact .inr ⟨rc, db', returns,
            fun legible => absurd keySep
            (legible key data flag (by rw [zero]; exact List.mem_singleton_self _))⟩
        · exact .inr ⟨rc, db', returns, fun _ => usable'⟩
      · obtain stops | ⟨rc, db', d', returns, usable', -⟩ := usable.store_plain plain keySep stores
        · exact .inl stops
        · exact .inr ⟨rc, db', returns, fun _ => ⟨d', usable'⟩⟩
    obtain ⟨error, rfl, stops⟩ | ⟨⟨rc, db₁⟩, w₁, returns, last⟩ := Exec.of_bind runs
    · refine ⟨fun _ error' same => ?_, fun _ _ impossible => by cases impossible⟩
      obtain ⟨error', same', elsewhere⟩ | ⟨_, _, impossible, -⟩ := stored stops
      · cases same
        cases same'
        exact elsewhere
      · cases impossible
    · cases last
      refine ⟨fun _ _ impossible => (by cases impossible), fun res db' same legible => ?_⟩
      obtain ⟨_, impossible, -⟩ | ⟨_, _, same', usable'⟩ := stored returns
      · cases impossible
      · cases same
        cases same'
        exact usable' legible

theorem Session.plain {calls : List (Op × Res)} {db₀ : DB} {w₀ : World Unit File} {d₀ : Layout}
    (start : Usable w₀ db₀ d₀)
    (session : Session Plain db₀ w₀ calls db w) (legible : Legible calls) : ∃ d, Usable w db d := by
  induction session with
  | start => exact ⟨d₀, start⟩
  | call earlier may returns inductionHypothesis =>
    obtain ⟨d, usable⟩ :=
      inductionHypothesis fun key data flag member => legible key data flag
      (List.mem_append_left _ member)
    exact (usable.plain may returns).2 _ _ rfl fun key data flag member => legible key data flag
      (List.mem_append_right _ member)

/-- A bound key comes up in a scan from the first record on, unless it is blank. -/
theorem DbRep.mem_scan {idx dat : Bytes} (rep : DbRep idx dat d) (bound : d.map key = some data)
    (visible : isBlank key = false) :
    (key, data) ∈ d.img.scan recordsOff := by
  obtain ⟨x, -, e, found, rfl, isData⟩ := rep.map_iff.1 bound
  exact Image.mem_scan.2 ⟨x, e, found, Image.entryAt_records found, visible, rfl, isData⟩

/-- As long as the keys that are stored have no separator, what a store has stored under a key that
is not blank is fetched again and comes up in a scan, and no index record ever stops a search. -/
theorem stored_keys_read_back {calls : List (Op × Res)} {db₀ db₁ : DB} {w₀ w₁ : World Unit File}
    (unlocked : w₀.locks = [])
    (opens : Exec soloKernel (dbOpen ⟨true, true⟩ db₀) w₀ (.returned (true, db₁)) w₁)
    (session : Session Plain db₁ w₁ calls db w) (earlier : Legible calls)
    (plain : Plain w (.store key data flag))
    (legible : sep ∉ key) (visible : isBlank key = false)
    (stores : Exec soloKernel (dbStore key data flag.code db) w (.returned (0, db')) w') :
    (∃ db₂ w₂, Exec soloKernel (dbFetch key db') w' (.returned (some data, db₂)) w₂) ∧
      (∃ db₂ w₂ records db₃ w₃, Exec soloKernel (dbRewind db') w' (.returned ((), db₂)) w₂ ∧
        Scan db₂ w₂ records db₃ w₃ ∧
        (key, data) ∈ records) ∧
      ∀ later db₂ w₂ op error w₃, Session Plain db' w' later db₂ w₂ → Legible later → Plain w₂ op →
        op.onKey = true → Exec soloKernel (dbCall op db₂) w₂ (.aborted error) w₃ →
          error.ofReadidx = false := by
  obtain ⟨start, -, -⟩ := Usable.of_open unlocked opens
  obtain ⟨d, usable⟩ := session.plain start earlier
  obtain ⟨_, impossible, -⟩ | ⟨rc, _, d', returned, usable', -, stored⟩ :=
    usable.store_plain plain legible stores
  · cases impossible
  cases returned
  have bound : d'.map key = some data := stored rfl
  refine ⟨?_, ?_, ?_⟩
  · obtain ⟨db₂, w₂, fetches, -⟩ := usable'.fetch plain.1
    rw [bound] at fetches
    exact ⟨db₂, w₂, fetches⟩
  · obtain ⟨db₂, w₂, rewinds, usable₂, -, pos⟩ := usable'.rewind
    obtain ⟨db₃, w₃, scans, -⟩ := usable₂.scan (.inl pos)
    rw [pos] at scans
    exact ⟨db₂, w₂, _, db₃, w₃, rewinds, scans, usable'.rep.mem_scan bound visible⟩
  · intro later db₂ w₂ op error w₃ session' legible' plain' onKey aborts
    obtain ⟨d₂, usable₂⟩ := session'.plain usable' legible'
    exact (usable₂.plain plain' aborts).1 onKey error rfl

/-- Records are stored and deleted, and a key with a separator is not replaced; then a record is
stored in the freed place. -/
theorem stored_keys_read_back_replaced : ∃ calls db₁ w₁ db w db' w',
    Exec soloKernel (dbOpen ⟨true, true⟩ {}) .absent (.returned (true, db₁)) w₁ ∧
      Session Plain db₁ w₁ calls db w ∧
      (.store (ascii "a:b") [122] .replace, .rc (-1)) ∈ calls ∧
        Exec soloKernel (dbStore (ascii "c d") [120, 121] dbInsert db) w (.returned (0, db')) w' ∧
          (∃ db₂ w₂, Exec soloKernel (dbFetch (ascii "c d") db') w' (.returned (some [120, 121], db₂)) w₂) ∧
            ∃ db₂ w₂ records db₃ w₃, Exec soloKernel (dbRewind db') w' (.returned ((), db₂)) w₂ ∧
              Scan db₂ w₂ records db₃ w₃ ∧
              (ascii "c d", [120, 121]) ∈ records := by
  have ran : (((dbOpen ⟨true, true⟩).returns soloKernel 10000 ({}, .absent)).bind fun (ok, s₁) =>
      (sessionRun Plain [.store (ascii "c e") [122, 122] .insert, .store [32] [120] .store, .store (ascii "a:b") [122] .replace,
        .delete (ascii "c e")] ([], s₁)).bind fun (calls, s) =>
      ((dbStore (ascii "c d") [120, 121] dbInsert).returns soloKernel 10000 s).map fun (rc, _) =>
        decide (ok = true ∧ (calls = [(.store (ascii "c e") [122, 122] .insert, .rc 0), (.store [32] [120] .store, .rc 0),
          (.store (ascii "a:b") [122] .replace, .rc (-1)), (.delete (ascii "c e"), .rc 0)] ∧
          (s.2.bytes .dat).length < 2 ^ 63) ∧ rc = 0)) = some true := by
    decide +kernel
  simp only [Option.bind_eq_some_iff, Option.map_eq_some_iff] at ran
  obtain ⟨⟨ok, s₁⟩, opens, ⟨calls, s⟩, session, ⟨rc, s'⟩, stores, same⟩ := ran
  obtain ⟨rfl, ⟨rfl, sized⟩, rfl⟩ := of_decide_eq_true same
  have opened := Code.returns_sound opens
  have called := sessionRun_sound .start session
  have stored := Code.returns_sound stores
  have plain : Plain s.2 (.store (ascii "c d") [120, 121] .insert) := ⟨by decide, by decide, sized⟩
  have legible : Legible [(.store (ascii "c e") [122, 122] .insert, .rc 0), (.store [32] [120] .store, .rc 0),
      (.store (ascii "a:b") [122] .replace, .rc (-1)), (.delete (ascii "c e"), .rc 0)] := by
    intro key data flag member
    obtain ⟨rfl, -⟩ | ⟨rfl, -⟩ := by simpa using member
    · decide
    · decide
  have readBack := stored_keys_read_back rfl opened called legible plain (by decide)
    (by decide) stored
  exact ⟨_, _, _, _, _, _, _, opened, called, by decide, stored, readBack.1, readBack.2.1⟩

/-- A key with a separator is stored, and then no search along its chain gets past it. -/
theorem separator_stops_fetch :
    ∃ db₁ w₁ db' w' w'', Exec soloKernel (dbOpen ⟨true, true⟩ {}) .absent
    (.returned (true, db₁)) w₁ ∧
    Exec soloKernel (dbStore (ascii "a:b") [120] dbInsert db₁) w₁ (.returned (0, db')) w' ∧
      Exec soloKernel (dbFetch (ascii "a:b") db') w' (.aborted .readidxManySeps) w'' := by
  have ran : (((dbOpen ⟨true, true⟩).returns soloKernel 10000 ({}, .absent)).bind fun (ok, s) =>
      ((dbStore (ascii "a:b") [120] dbInsert).returns soloKernel 10000 s).bind fun (rc, s') =>
        ((dbFetch (ascii "a:b")).aborts soloKernel 10000 s').map fun (error, _) =>
          decide (ok = true ∧ rc = 0 ∧ error = .readidxManySeps)) = some true := by
    decide +kernel
  simp only [Option.bind_eq_some_iff, Option.map_eq_some_iff] at ran
  obtain ⟨⟨ok, s⟩, opens, ⟨rc, s'⟩, stores, ⟨error, w''⟩, stops, same⟩ := ran
  obtain ⟨rfl, rfl, rfl⟩ := of_decide_eq_true same
  exact ⟨_, _, _, _, w'', Code.returns_sound opens, Code.returns_sound stores,
    Code.aborts_sound stops⟩

end Apue.Db
