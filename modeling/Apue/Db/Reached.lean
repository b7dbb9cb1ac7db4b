import Apue.Db.Freelist
import Apue.Db.Rejected

/-! # Every database that calls lead to

A new database, and whatever calls are made on it: with any keys and data, from any offset, to their
end or until one of them stops the process.  The records keep their places through all of them.
-/

namespace Apue.Db

open Apue.Base

variable {w w' : World Unit File} {db db' : DB} {img : Image} {lists : Slot → List Nat}
    {dat : Bytes} {before after : List Nat}
  {x v : Nat} {e : Entry} {key data : Bytes} {α : Type} {error : Err} {s : Slot}

/-- The files are those of a database whose records are in their places. -/
def HasPlaces (files : File → Bytes) : Prop :=
  ∃ img lists, Placed (files .idx) (files .dat) img lists

theorem Placed.hasPlaces {idx : Bytes} {files : File → Bytes} (placed : Placed idx dat img lists)
    (isIdx : files .idx = idx)
    (isDat : files .dat = dat) : HasPlaces files := ⟨img, lists, by rw [isIdx, isDat]; exact placed⟩

/-- Whatever is written to the data file. -/
theorem Placed.overwritten (placed : Placed (w.bytes .idx) (w.bytes .dat) img lists) {n : Nat}
    {buffer : Bytes}
    (bytes : w'.bytes = Function.update w.bytes .dat (writeAt (w.bytes .dat) n buffer)) :
    Placed (w'.bytes .idx) (w'.bytes .dat) img lists := by
  rw [bytes, Function.update_self, Function.update_of_ne (by decide)]
  exact placed.grow (length_le_writeAt ..)

/-- Run from `w`, the code returns as said by `Q`, or stops with the records in their places. -/
abbrev Steady (w : World Unit File) (m : DbM α) (db : DB)
    (Q : α → DB → World Unit File → Prop) : Prop :=
  (Checker.running soloKernel fun w (_ : Err) => HasPlaces w.bytes).Keeps w m db Q

namespace Steady

variable {m : DbM α} {Q : α → DB → World Unit File → Prop}

theorem of_exec {value : α} (runs : Exec soloKernel (m db) w (.returned (value, db')) w')
    (holds : Q value db' w') :
    Steady w m db Q := by
  refine Checker.Follows.of_runs fun outcome w'' runs' => ?_
  obtain ⟨rfl, rfl⟩ := runs.deterministic runs'
  exact holds

theorem of_aborted (runs : Exec soloKernel (m db) w (.aborted error) w')
    (places : HasPlaces w'.bytes) : Steady w m db Q := by
  refine Checker.Follows.of_runs fun outcome w'' runs' => ?_
  obtain ⟨rfl, rfl⟩ := runs.deterministic runs'
  exact places

theorem abort (places : HasPlaces w.bytes) : Steady w (Code.abort error) db Q :=
  Checker.Keeps.abort places

/-- Code that only reads. -/
theorem of_readsOnly (reads : ReadsOnly m) (places : HasPlaces w.bytes) :
    Steady w m db fun _ _ w' => HasPlaces w'.bytes := by
  refine Checker.Follows.of_runs fun outcome w' runs => ?_
  have kept : HasPlaces w'.bytes := (reads.exec runs).symm ▸ places
  cases outcome with
  | returned result => exact kept
  | aborted error => exact kept

theorem lockReg {file : File} {type : LockType} {offset len : Nat} :
    Steady w (Db.lockReg file type offset len error) db fun _ db' w' => db' = db ∧
      w'.bytes = w.bytes := by
  obtain ⟨w', locks, bytes, -⟩ := exec_lockReg w db file type offset len error
  exact of_exec locks ⟨rfl, bytes⟩

theorem unLock {file : File} {offset len : Nat} :
    Steady w (Db.unLock file offset len error) db fun _ db' w' => db' = db ∧
      w'.bytes = w.bytes := by
  obtain ⟨w', unlocks, bytes, -⟩ := exec_unLock w db file offset len error
  exact of_exec unlocks ⟨rfl, bytes⟩

theorem readptr (db : DB) {off : Nat} (stands : HasAt (w.bytes .idx) off (encPtr v))
    (small : v ≤ ptrMax) :
    Steady w (dbReadptr off) db fun ptrval db' w' => ptrval = v ∧ db' = db ∧
      w'.bytes = w.bytes := by
  obtain ⟨w', reads, bytes⟩ := exec_readptr db stands small
  exact of_exec reads ⟨rfl, rfl, bytes⟩

end Steady

/-! ## Finding a key -/

/-- `_db_readidx` at a record with a separator in its key. -/
theorem Placed.exec_readidx_sep (placed : Placed (w.bytes .idx) dat img lists) (db : DB)
    (found : img.entryAt x = some e)
    (member : sep ∈ e.key) :
    ∃ w', Exec soloKernel (dbReadidx x db) w (.aborted .readidxManySeps) w' ∧
      w'.bytes = w.bytes := by
  have written := placed.all.entry found
  have rejected : recordAt (w.bytes .idx) x = .error .readidxManySeps := by
    rw [recordAt_of_hasAt written.ptr written.length (e.enc_assoc ▸ placed.hasAt found), Entry.text,
      parseIdxbuf_sep written.clean member]
  have nonzero : (x : Int) ≠ 0 := by
    have high := Image.entryAt_records found
    simp only [recordsOff, nhashDef, ptrSz] at high
    omega
  have target : w.target () .idx x (if (x : Int) = 0 then .cur else .set) = x := by
    rw [if_neg nonzero]
    rfl
  obtain ⟨outcome, w', runs, ends⟩ := exec_readidx db target
  cases ends with
  | record found' => cases rejected.symm.trans found'
  | finish _ current => exact absurd current nonzero
  | stops stopped =>
    cases rejected.symm.trans stopped
    exact ⟨w', runs, (ReadsOnly.readidx _).exec runs⟩

/-- The first record of a chain at which the walk for a key ends: the one with the key, or one with
a separator in its key, which cannot be read. -/
def Image.sought (img : Image) (key : Bytes) (chain : List Nat) : Option Entry :=
  (chain.filterMap img.entryAt).find? fun e => sep ∈ e.key ∨ e.key = cstr key

theorem Image.sought_cons (found : img.entryAt x = some e) (chain : List Nat) :
    img.sought key (x :: chain) = if sep ∈ e.key ∨
      e.key = cstr key then some e else img.sought key chain := by
  rw [Image.sought, List.filterMap_cons_some found, List.find?_cons]
  split <;> simp_all [Image.sought]

/-- What `_db_find_and_lock` has found on the chain. -/
structure Hit (img : Image) (chain : List Nat) (c : Nat) (db : DB) (before : List Nat) (x : Nat)
    (after : List Nat) (e : Entry) :
    Prop where
  split : chain = before ++ x :: after
  found : img.entryAt x = some e
  plain : sep ∉ e.key
  current : Current db x e
  ptroff : db.ptroff = (lastCell c before : Nat)

/-- How the walk along the chain for the key ends; `absent` and `present` are its values. -/
inductive Searched (img : Image) (key : Bytes) (chain : List Nat) (c : Nat) (ahead : List Nat)
    (absent : Int)
    (present : Nat → Int) : Outcome Err (Int × DB) → Prop
  | absent {db' : DB} (none : img.sought key ahead = none) (onChain : OnChain c db') :
      Searched img key chain c ahead absent present (.returned (absent, db'))
  | present {db' : DB} {before after : List Nat} {x : Nat} {e : Entry} (found : img.sought key ahead = some e)
      (hit : Hit img chain c db' before x after e) (onChain : OnChain c db') :
      Searched img key chain c ahead absent present (.returned (present x, db'))
  | unreadable {e : Entry} (found : img.sought key ahead = some e) (member : sep ∈ e.key) :
      Searched img key chain c ahead absent present (.aborted .readidxManySeps)

theorem Placed.exec_findLoop (placed : Placed (w.bytes .idx) dat img lists) {c : Nat}
    (onChain : OnChain c db)
    (split : lists s = before ++ after) (ptroff : db.ptroff = (lastCell c before : Nat)) :
    ∃ outcome w', Exec soloKernel (Code.loop (findTurn key) ((after.head?.getD 0 : Nat) : Int) db) w
      outcome w' ∧
      w'.bytes = w.bytes ∧ Searched img key (lists s) c after 0 (fun x => x) outcome := by
  induction after generalizing before db w with
  | nil =>
    have ends : Exec soloKernel (findTurn key 0 db) w (.returned (.inr 0, db)) w := .ret _ _
    exact ⟨_, w, Code.exec_loop_leave ends, rfl, .absent rfl onChain⟩
  | cons x after inductionHypothesis =>
    have member : x ∈ lists s := by simp [split]
    have nonzero : ((x : Nat) : Int) ≠ 0 := by exact_mod_cast placed.ne_zero member
    obtain ⟨e, found⟩ := placed.records s x member
    have sought : img.sought key (x :: after) = _ := Image.sought_cons found after
    by_cases plain : sep ∈ e.key
    · rw [if_pos (.inl plain)] at sought
      obtain ⟨w', stops, bytes⟩ := placed.exec_readidx_sep db found plain
      exact ⟨_, w', Code.exec_loop_stops (Code.exec_else nonzero (Exec.bind_aborted stops)), bytes,
        .unreadable sought plain⟩
    obtain ⟨rest, w₁, reads, bytes₁⟩ := placed.readidx db found plain
    let db₁ := db.load x e rest
    have onChain₁ : OnChain c db₁ := ⟨onChain.nhash, onChain.hashoff, onChain.chain⟩
    have test : strEq db₁.idxbuf key ↔ e.key = cstr key := by
      rw [strEq, show db₁.idxbuf = e.key ++ 0 :: rest from rfl,
        cstr_append_zero (placed.all.entry found).clean,
        decide_eq_true_iff]
    by_cases same : e.key = cstr key
    · rw [if_pos (.inr same)] at sought
      have leaves : Exec soloKernel (findTurn key x db) w (.returned (.inr x, db₁)) w₁ :=
        Code.exec_else nonzero
          (Exec.bind reads (Exec.bind (.ret _ _) (Code.exec_if (test.2 same) (.ret _ _))))
      have hit : Hit img (lists s) c db₁ before x after e :=
        ⟨split, found, plain, DB.load_current .., ptroff⟩
      exact ⟨_, w₁, Code.exec_loop_leave leaves, bytes₁, .present sought hit onChain₁⟩
    · rw [if_neg (not_or.2 ⟨plain, same⟩)] at sought
      let db₂ : DB := { db₁ with ptroff := x }
      have turn : Exec soloKernel (findTurn key x db) w (.returned (.inl e.ptr, db₂)) w₁ :=
        Code.exec_else nonzero (Exec.bind reads (Exec.bind (.ret _ _)
          (Code.exec_else (fun equal => same (test.1 equal)) (Exec.bind (.ret _ _) (.ret _ _)))))
      have next := placed.next split found
      rw [← bytes₁] at placed
      have onChain₂ : OnChain c db₂ := ⟨onChain₁.nhash, onChain₁.hashoff, onChain₁.chain⟩
      obtain ⟨outcome, w', walks, bytes, searched⟩ := inductionHypothesis placed onChain₂
        (split.trans (List.append_cons before x after)) (by rw [lastCell_append_singleton])
      rw [← next] at walks
      refine ⟨outcome, w', Code.exec_loop_again turn walks, bytes.trans bytes₁, ?_⟩
      cases searched with
      | absent none onChain => exact .absent (sought.trans none) onChain
      | present found' hit onChain => exact .present (sought.trans found') hit onChain
      | unreadable found' member => exact .unreadable (sought.trans found') member

/-- Every call of `_db_find_and_lock` ends as the records of the chain say. -/
theorem Placed.exec_find (placed : Placed (w.bytes .idx) dat img lists)
    (nhash : db.nhash = nhashDef)
    (hashoff : db.hashoff = hashOff) (key : Bytes) (writelock : Bool) :
    ∃ outcome w', Exec soloKernel (dbFindAndLock key writelock db) w outcome w' ∧
      w'.bytes = w.bytes ∧
      Searched img key (lists (Slot.ofKey key)) (chainOff (dbHash nhashDef key))
        (lists (Slot.ofKey key)) (-1) (fun _ => 0)
        outcome := by
  have chainoff : dbHash db.nhash key * ptrSz + db.hashoff = chainOff (dbHash nhashDef key) := by
    rw [nhash, hashoff, chainOff]
  let db₁ : DB := { db with
    chainoff := dbHash db.nhash key * ptrSz + db.hashoff, ptroff :=
      (dbHash db.nhash key * ptrSz + db.hashoff : Nat) }
  have onChain₁ : OnChain (chainOff (dbHash nhashDef key)) db₁ := ⟨nhash, hashoff, chainoff⟩
  have ptroff₁ : db₁.ptroff = (chainOff (dbHash nhashDef key) : Nat) := congrArg Nat.cast chainoff
  obtain ⟨w₁, locks, bytes₁⟩ :
      ∃ w₁, Exec soloKernel (lockChain writelock db₁) w (.returned ((), db₁)) w₁ ∧
      w₁.bytes = w.bytes := by
    cases writelock with
    | true =>
      obtain ⟨w₁, locks, bytes, -⟩ := exec_lockReg w db₁ .idx .write db₁.chainoff 1 .findWriteLock
      exact ⟨w₁, Exec.bind (.ret _ _) locks, bytes⟩
    | false =>
      obtain ⟨w₁, locks, bytes, -⟩ := exec_lockReg w db₁ .idx .read db₁.chainoff 1 .findReadLock
      exact ⟨w₁, Exec.bind (.ret _ _) locks, bytes⟩
  have start := placed.start (Slot.ofKey key)
  have stands := placed.ptr_hasAt start
  rw [Slot.off_ofKey, ← bytes₁] at stands
  obtain ⟨w₂, reads, bytes₂⟩ := exec_readptr db₁ stands (placed.small start)
  rw [← ptroff₁] at reads
  rw [← bytes₁, ← bytes₂] at placed
  have split : lists (Slot.ofKey key) = [] ++ lists (Slot.ofKey key) := rfl
  obtain ⟨outcome, w₃, walks, bytes₃, searched⟩ : ∃ outcome w', _ ∧ _ ∧
      Searched img key _ _ _ _ _ outcome :=
    placed.exec_findLoop onChain₁ split ptroff₁
  have bytes : w₃.bytes = w.bytes := bytes₃.trans (bytes₂.trans bytes₁)
  -- what comes before the walk
  have go {outcome : Outcome Err (Int × DB)} {w' : World Unit File} (rest : Exec soloKernel ((do
      let offset ← Code.loop (findTurn key) (((lists (Slot.ofKey key)).head?.getD 0 : Nat) : Int)
      pure (if offset = 0 then -1 else 0) : DbM Int) db₁) w₂ outcome w') :
      Exec soloKernel (dbFindAndLock key writelock db) w outcome w' :=
    Exec.bind (.ret _ _) (Exec.bind locks (Exec.bind (.ret _ _) (Exec.bind reads rest)))
  cases searched with
  | absent none onChain =>
    exact ⟨_, w₃, go (Exec.bind walks (.ret _ _)), bytes, .absent none onChain⟩
  | @present db₃ before after x e found hit onChain =>
    have nonzero : (x : Int) ≠ 0 := by
      exact_mod_cast placed.ne_zero (show x ∈ lists (Slot.ofKey key) by simp [hit.split])
    have last : Exec soloKernel ((pure (if (x : Int) = 0 then -1 else 0) : DbM Int) db₃) w₃
        (.returned (0, db₃)) w₃ := by
      rw [if_neg nonzero]
      exact .ret _ _
    exact ⟨_, w₃, go (Exec.bind walks last), bytes, .present found hit onChain⟩
  | unreadable found member =>
    exact ⟨_, w₃, go (Exec.bind_aborted walks), bytes, .unreadable found member⟩

theorem Placed.steady_find (placed : Placed (w.bytes .idx) (w.bytes .dat) img lists)
    (nhash : db.nhash = nhashDef)
    (hashoff : db.hashoff = hashOff) (key : Bytes) (writelock : Bool) :
    Steady w (dbFindAndLock key writelock) db fun found db' w' => w'.bytes = w.bytes ∧
      OnChain (chainOff (dbHash nhashDef key)) db' ∧ (found = -1 ∨ found = 0 ∧ ∃ before x after e,
        Hit img (lists (Slot.ofKey key)) (chainOff (dbHash nhashDef key)) db' before x
          after e) := by
  obtain ⟨outcome, w', runs, bytes, searched⟩ := placed.exec_find nhash hashoff key writelock
  cases searched with
  | absent none onChain => exact Steady.of_exec runs ⟨bytes, onChain, .inl rfl⟩
  | present found hit onChain =>
    exact Steady.of_exec runs ⟨bytes, onChain, .inr ⟨rfl, _, _, _, _, hit⟩⟩
  | unreadable found member =>
    rw [← bytes] at placed
    exact Steady.of_aborted runs ⟨img, lists, placed⟩

/-! ## Deleting -/

/-- The blanks `_db_dodelete` writes over a string of the length of the key. -/
theorem cstr_blanks (clean : NulFree key) (rest : Bytes) :
    cstr (List.replicate (strlen (key ++ 0 :: rest)) space ++
      (key ++ 0 :: rest).drop (strlen (key ++ 0 :: rest))) =
      List.replicate key.length space := by
  rw [strlen, cstr_append_zero clean, List.drop_append_of_le_length (Nat.le_refl _),
    List.drop_length, List.nil_append,
    cstr_append_zero (nulFree_replicate _)]

/-- The structure when the blanks are in its buffers. -/
structure Wiped (db : DB) (x : Nat) (e : Entry) (cell : Nat) : Prop where
  datbuf : cstr db.datbuf = List.replicate e.data.length space
  idxbuf : cstr db.idxbuf = List.replicate e.key.length space
  idxoff : db.idxoff = x
  datoff : db.datoff = e.doff
  ptrval : db.ptrval = e.ptr
  ptroff : db.ptroff = cell

theorem Placed.exec_dodeleteWrites (placed : Placed (w.bytes .idx) (w.bytes .dat) img lists)
    (chain : s ≠ 0)
    (split : lists s = before ++ x :: after) (found : img.entryAt x = some e)
    (wiped : Wiped db x e (lastCell s.off before)) :
    ∃ db' w', Exec soloKernel (dodeleteWrites db) w (.returned ((), db')) w' ∧ HasPlaces w'.bytes ∧
      (w'.bytes .dat).length = (w.bytes .dat).length ∧ ∀ c, OnChain c db → OnChain c db' := by
  have written := placed.all.entry found
  have member : x ∈ lists s := by simp [split]
  have start := placed.start 0
  set head := (lists 0).head?.getD 0 with isHead
  have smallHead : head ≤ ptrMax := placed.small start
  -- the data
  have blanksLength : strlen db.datbuf + 1 = e.dlen := by
    rw [strlen, wiped.datbuf, List.length_replicate]
    rfl
  have target₁ : w.target () .dat db.datoff .set = e.doff := wiped.datoff
  obtain ⟨w₁, puts, bytes₁⟩ :=
    exec_writedat db (blanksLength ▸ written.size.trans (by decide)) target₁
  let db₁ : DB := { db with datoff := e.doff, datlen := strlen db.datbuf + 1 }
  have idx₁ : w₁.bytes .idx = w.bytes .idx := by rw [bytes₁, Function.update_of_ne (by decide)]
  -- the index record
  have stands : HasAt (w₁.bytes .idx) freeOff (encPtr head) := by
    rw [idx₁]
    exact placed.ptr_hasAt start
  obtain ⟨w₂, reads, bytes₂⟩ := exec_readptr db₁ stands smallHead
  have text : idxText (cstr db₁.idxbuf) db₁.datoff db₁.datlen = (e.blanked head).text := by
    rw [show cstr db₁.idxbuf = _ from wiped.idxbuf, Entry.text, e.blanked_dlen]
    exact congrArg (idxText _ _) blanksLength
  have target₂ : w₂.target () .idx db₁.idxoff .set = x := congrArg Nat.cast wiped.idxoff
  obtain ⟨w₃, writes, -, bytes₃⟩ :=
    exec_writeidx db₁ db₁.idxbuf smallHead (text ▸ (written.blanked smallHead).length) target₂
  let db₂ : DB := { db₁ with ptrval := head, idxbuf := idxText (cstr db₁.idxbuf) db₁.datoff db₁.datlen ++ [0], idxoff := x }
  -- the pointers
  obtain ⟨w₄, frees, bytes₄⟩ := exec_writeptr db₂ w₃ freeOff (placed.member_small member)
  obtain ⟨w₅, unlinks, bytes₅⟩ := exec_writeptr db₂ w₄ (lastCell s.off before) written.ptr
  rw [← wiped.ptroff, ← wiped.ptrval] at unlinks
  have idx : w₅.bytes .idx =
      writeAt (writeAt (writeAt (w.bytes .idx) x (e.blanked head).enc) freeOff (encPtr x))
      (lastCell s.off before) (encPtr e.ptr) := by
    have record : idxBytes (cstr db₁.idxbuf) head db₁.datoff db₁.datlen = (e.blanked head).enc := by
      rw [Entry.enc_assoc, ← text]
      rfl
    rw [bytes₅, Function.update_self, bytes₄, Function.update_self, bytes₃, Function.update_self,
      record, bytes₂, idx₁]
  have dat : w₅.bytes .dat = writeAt (w.bytes .dat) e.doff (cstr db.datbuf ++ [newline]) := by
    rw [bytes₅, Function.update_of_ne (by decide), bytes₄,
      Function.update_of_ne (by decide), bytes₃,
      Function.update_of_ne (by decide), bytes₂, bytes₁, Function.update_self]
  have datLength : (w₅.bytes .dat).length = (w.bytes .dat).length := by
    rw [dat]
    apply writeAt_length
    rw [List.length_append]
    exact (Nat.add_le_add_left (Nat.le_of_eq blanksLength) e.doff).trans (placed.inside x e found)
  obtain ⟨img', lists', placed'⟩ := placed.free chain split found
  refine ⟨db₂, w₅, ?_, ⟨img', lists', ?_⟩, datLength,
    fun c onChain => ⟨onChain.nhash, onChain.hashoff, onChain.chain⟩⟩
  · exact Exec.bind (.ret _ _)
      (Exec.bind puts (Exec.bind reads (Exec.bind (.ret _ _) (Exec.bind writes (Exec.bind (.ret _ _)
      (Exec.bind frees unlinks))))))
  · rw [idx]
    exact placed'.grow datLength.ge

/-- `_db_dodelete` on a record that has been found. -/
theorem Placed.exec_dodelete (placed : Placed (w.bytes .idx) (w.bytes .dat) img lists)
    (chain : s ≠ 0)
    (hit : Hit img (lists s) s.off db before x after e) {c : Nat} (onChain : OnChain c db) :
    ∃ db' w', Exec soloKernel (dbDodelete db) w (.returned ((), db')) w' ∧ HasPlaces w'.bytes ∧
      (w'.bytes .dat).length = (w.bytes .dat).length ∧ OnChain c db' := by
  have clean := (placed.all.entry hit.found).clean
  obtain ⟨rest, idxbuf⟩ := hit.current.idxbuf
  let db₁ : DB := { db with
    datbuf := List.replicate (db.datlen - 1) space ++ [0]
    idxbuf := List.replicate (strlen db.idxbuf) space ++ db.idxbuf.drop (strlen db.idxbuf) }
  have wiped : Wiped db₁ x e (lastCell s.off before) := by
    refine ⟨?_, ?_, hit.current.idxoff, hit.current.datoff, hit.current.ptrval, hit.ptroff⟩
    · change cstr (List.replicate (db.datlen - 1) space ++ [0]) = _
      rw [cstr_append_zero (nulFree_replicate _), hit.current.datlen]
      rfl
    · change cstr (List.replicate (strlen db.idxbuf) space ++ db.idxbuf.drop (strlen db.idxbuf)) = _
      rw [idxbuf]
      exact cstr_blanks clean rest
  obtain ⟨w₁, locks, bytes₁, -⟩ := exec_lockReg w db₁ .idx .write freeOff 1 .dodeleteLock
  rw [← bytes₁] at placed ⊢
  obtain ⟨db₂, w₂, writes, places, datLength, kept⟩ :=
    placed.exec_dodeleteWrites chain hit.split hit.found wiped
  obtain ⟨w₃, unlocks, bytes₃, -⟩ := exec_unLock w₂ db₂ .idx freeOff 1 .dodeleteUnlock
  refine ⟨db₂, w₃, Exec.bind (.ret _ _) (Exec.bind locks (Exec.bind writes unlocks)),
    bytes₃ ▸ places, ?_,
    kept c ⟨onChain.nhash, onChain.hashoff, onChain.chain⟩⟩
  rw [bytes₃, datLength]

/-! ## Storing -/

/-- Data that is too long for one transfer is written in part, and the process stops. -/
theorem exec_writedat_partly (db : DB) {offset : Int} {whence : Whence} {n : Nat}
    (long : ¬strlen data + 1 ≤ writeMax)
    (target : w.target () .dat offset whence = n) :
    ∃ w', Exec soloKernel (dbWritedat data offset whence db) w (.aborted .writedatWritev) w' ∧
      w'.bytes = Function.update w.bytes .dat
        (writeAt (w.bytes .dat) n ((cstr data ++ [newline]).take writeMax)) := by
  obtain ⟨w₁, locks, bytes₁, pos₁⟩ :=
    exec_whenAppending whence (exec_lockReg w db .dat .write 0 0 .writedatLock)
  have target₁ : w₁.target () .dat offset whence = n := by
    rw [← target]
    cases whence <;> simp only [World.target, bytes₁, pos₁]
  let w₂ := w₁.setPos () .dat n
  let db' : DB := { db with datoff := n, datlen := strlen data + 1 }
  have partly : ((cstr data ++ [newline]).take writeMax).length ≠
      (cstr data ++ [newline]).length := by
    rw [List.length_take, List.length_append, List.length_singleton]
    change ¬(cstr data).length + 1 ≤ writeMax at long
    omega
  have stops : Exec soloKernel (write .dat (cstr data ++ [newline]) .writedatWritev db') w₂
      (.aborted .writedatWritev)
      ((w₂.setBytes .dat
        (writeAt (w₂.bytes .dat) (w₂.pos () .dat) ((cstr data ++ [newline]).take writeMax))).setPos
        () .dat
        (w₂.pos () .dat + ((cstr data ++ [newline]).take writeMax).length)) :=
    .call rfl (Code.exec_else partly (.abort _ _))
  have seeks := exec_lseek db .writedatLseek target₁
  refine ⟨_, Exec.bind locks (Exec.bind seeks (Exec.bind (.ret _ _) (Exec.bind_aborted stops))), ?_⟩
  rw [show w₂.pos () .dat = n from setPos_pos_self w₁ .dat n]
  change Function.update w₁.bytes .dat (writeAt (w₁.bytes .dat) n _) = _
  rw [bytes₁]

theorem Placed.steady_writedat (placed : Placed (w.bytes .idx) (w.bytes .dat) img lists) (db : DB)
    {offset : Int} {whence : Whence}
    {n : Nat} (target : w.target () .dat offset whence = n) :
    Steady w (dbWritedat data offset whence) db fun _ db' w' => strlen data + 1 ≤ writeMax ∧
      db' = { db with datoff := n, datlen := strlen data + 1 } ∧
      w'.bytes = Function.update w.bytes .dat
        (writeAt (w.bytes .dat) n (cstr data ++ [newline])) := by
  by_cases short : strlen data + 1 ≤ writeMax
  · obtain ⟨w', writes, bytes⟩ := exec_writedat db short target
    exact Steady.of_exec writes ⟨short, rfl, bytes⟩
  · obtain ⟨w', stops, bytes⟩ := exec_writedat_partly db short target
    exact Steady.of_aborted stops ⟨img, lists, placed.overwritten bytes⟩

/-- `_db_writeidx` refuses a text of the wrong length before it writes anything. -/
theorem exec_writeidx_unfit (db : DB) (key : Bytes) {n : Nat} (small : n ≤ ptrMax)
    (unfit : ¬(idxlenMin ≤ (idxText (cstr key) db.datoff db.datlen).length ∧
      (idxText (cstr key) db.datoff db.datlen).length ≤ idxlenMax)) (offset :
        Int) (whence : Whence) :
    ∃ error, Exec soloKernel (dbWriteidx key offset whence n db) w (.aborted error) w := by
  by_cases long : (idxText (cstr key) db.datoff db.datlen).length + 1 > idxlenMax + 2
  · exact ⟨.idxbufOverrun,
      Exec.bind (.ret _ _)
      (Code.exec_else (by omega) (Exec.bind (.ret _ _) (Code.exec_if long (.abort _ _))))⟩
  · refine ⟨.writeidxLength,
      Exec.bind (.ret _ _)
      (Code.exec_else (by omega) (Exec.bind (.ret _ _) (Code.exec_else long ?_)))⟩
    refine Exec.bind (.ret _ _) (Code.exec_if ?_ (.abort _ _))
    change (idxText (cstr key) db.datoff db.datlen).length < idxlenMin ∨
      (idxText (cstr key) db.datoff db.datlen).length > idxlenMax
    omega

/-- A record on no list comes to stand in front of a chain, if its offset fits a pointer. -/
theorem Placed.steady_link (placed : Placed (w.bytes .idx) (w.bytes .dat) img lists) (chain : s ≠ 0)
    (found : img.entryAt x = some e) (new : ∀ t, x ∉ lists t) (next : img.ptrAt s.off = some e.ptr)
    (db : DB) :
    Steady w (dbWriteptr s.off x) db fun _ _ w' => HasPlaces w'.bytes := by
  by_cases near : x ≤ ptrMax
  · obtain ⟨w', links, bytes⟩ := exec_writeptr db w s.off near
    exact Steady.of_exec links
      ((placed.push found new next near fun free => absurd free chain).hasPlaces
      (by rw [bytes, Function.update_self]) (by rw [bytes, Function.update_of_ne (by decide)]))
  · have stops : Exec soloKernel (dbWriteptr s.off x db) w (.aborted .writeptrPtr) w :=
      Code.exec_if (by omega) (.abort _ _)
    exact Steady.of_aborted stops ⟨img, lists, placed⟩

theorem Placed.steady_storeAppend (placed : Placed (w.bytes .idx) (w.bytes .dat) img lists)
    (chain : s ≠ 0)
    (onChain : OnChain s.off db) (sized : (w.bytes .dat).length < 2 ^ 63)
    (valid : cInt (strlen data + 1 : Nat) ≤ datlenMax)
    (next : img.ptrAt s.off = some v) :
    Steady w (storeAppend key data v) db fun _ _ w' => HasPlaces w'.bytes := by
  have small := placed.small next
  have target : w.target () .dat 0 .fromEnd = (w.bytes .dat).length := Int.add_zero _
  refine .bind (placed.steady_writedat db target) ?_
  rintro - _ w₁ ⟨short, rfl, bytes₁⟩
  have placed₁ := placed.overwritten bytes₁
  have datLength : (w₁.bytes .dat).length = (w.bytes .dat).length + (strlen data + 1) := by
    rw [bytes₁, Function.update_self, writeAt_end, List.length_append, List.length_append,
      List.length_singleton, strlen]
  let e : Entry := ⟨v, cstr key, (w.bytes .dat).length, cstr data⟩
  let db₁ : DB := { db with datoff := (w.bytes .dat).length, datlen := strlen data + 1 }
  by_cases fits : idxlenMin ≤ e.text.length ∧ e.text.length ≤ idxlenMax
  swap
  · obtain ⟨error, stops⟩ := exec_writeidx_unfit (w := w₁) db₁ key small fits 0 .fromEnd
    exact .bind (Steady.of_aborted stops ⟨img, lists, placed₁⟩ (Q := fun _ _ _ => False))
      fun _ _ _ => False.elim
  have written : e.Written := by
    refine ⟨small, nulFree_cstr key, sized, ?_, fits⟩
    rw [writeMax] at short
    rw [cInt_of_small (by omega)] at valid
    exact Int.ofNat_le.1 valid
  have atEnd : (w₁.bytes .idx).length = img.size := by
    rw [placed₁.index, Image.bytes_length placed.all.table]
  have target₁ : w₁.target () .idx 0 .fromEnd = img.size := by
    rw [← atEnd]
    exact Int.add_zero _
  obtain ⟨w₂, writes, -, bytes₂⟩ := exec_writeidx db₁ key small fits target₁
  have placed₂ : Placed (w₂.bytes .idx) (w₂.bytes .dat) (img.append e) lists := by
    have record : idxBytes (cstr key) v db₁.datoff db₁.datlen = e.enc := e.enc_assoc.symm
    rw [bytes₂, Function.update_self, Function.update_of_ne (by decide), ← atEnd,
      writeAt_end, record]
    exact placed₁.append written datLength.ge placed.inside
  refine .bind (Steady.of_exec writes ⟨rfl, rfl⟩ (Q := fun _ db' w' => db' = _ ∧ w' = w₂)) ?_
  rintro - _ _ ⟨rfl, rfl⟩
  refine .getThen ?_
  -- the record is in its place, on no list yet
  have found : (img.append e).entryAt img.size = some e := by rw [Image.entryAt_append, if_pos rfl]
  have new (t : Slot) : img.size ∉ lists t := by
    intro member
    obtain ⟨d, there⟩ := placed.records t _ member
    rw [Image.entryAt_size] at there
    cases there
  have next₂ : (img.append e).ptrAt s.off = some v := by
    have low := s.off_lt
    rw [Image.ptrAt_append img (by simp only [ptrSz] at low; omega), next]
  change Steady _ (dbWriteptr db.chainoff img.size) _ _
  rw [onChain.chain]
  exact placed₂.steady_link chain found new next₂ _

/-- The record that has been taken off the free list has the lengths of key and data as `int`s. -/
theorem Placed.steady_storeReuse (placed : Placed (w.bytes .idx) (w.bytes .dat) img lists)
    (chain : s ≠ 0)
    (found : img.entryAt x = some e) (new : ∀ t, x ∉ lists t) (smallX : x ≤ ptrMax)
    (current : Current db x e)
    (onChain : OnChain s.off db) (next : img.ptrAt s.off = some v)
    (keylen : (e.key.length : Int) = cInt (strlen key))
    (datlen : (e.dlen : Int) = cInt (strlen data + 1 : Nat)) :
    Steady w (storeReuse key data v) db fun _ _ w' => HasPlaces w'.bytes := by
  have small := placed.small next
  have written := placed.all.entry found
  by_cases lengths : strlen key = e.key.length ∧ strlen data + 1 = e.dlen
  · obtain ⟨sameKey, sameData⟩ := lengths
    obtain ⟨db', w', runs, dat, idx⟩ :=
      exec_storeReuse written current onChain smallX small sameKey sameData
    have placed' := placed.relink found new (written.reused small sameKey sameData)
      (Entry.reused_text_length sameKey sameData v)
      ⟨rfl, sameData⟩ next smallX fun free => absurd free chain
    exact Steady.of_exec runs ((placed'.grow (length_le_writeAt ..)).hasPlaces idx dat)
  · -- a length that is none of an `int`: the data is too long for one transfer, or the key for an index record
    have target : w.target () .dat db.datoff .set = e.doff := current.datoff
    refine .getThen (.bind (placed.steady_writedat db target) ?_)
    rintro - _ w₁ ⟨short, rfl, bytes₁⟩
    have placed₁ := placed.overwritten bytes₁
    let db₁ : DB := { db with datoff := e.doff, datlen := strlen data + 1 }
    have unfit : ¬(idxlenMin ≤ (idxText (cstr key) db₁.datoff db₁.datlen).length ∧
        (idxText (cstr key) db₁.datoff db₁.datlen).length ≤ idxlenMax) := by
      rintro ⟨-, most⟩
      have keyShort : strlen key ≤ (idxText (cstr key) db₁.datoff db₁.datlen).length := by
        simp only [idxText, List.length_append, strlen]
        omega
      simp only [idxlenMax, writeMax] at most short
      rw [cInt_of_small (by omega)] at keylen datlen
      exact lengths ⟨(Int.ofNat_inj.1 keylen).symm, (Int.ofNat_inj.1 datlen).symm⟩
    obtain ⟨error, stops⟩ := exec_writeidx_unfit (w := w₁) db₁ key small unfit db₁.idxoff .set
    exact .getThen (.bind (Steady.of_aborted stops ⟨img, lists, placed₁⟩ (Q := fun _ _ _ => False))
      fun _ _ _ => False.elim)

theorem isInt_cInt (z : Int) : IsInt (cInt z) := by
  unfold IsInt cInt
  have low := Int.le_bmod (x := z) (m := 2 ^ 32) (by decide)
  have high := Int.bmod_lt (x := z) (m := 2 ^ 32) (by decide)
  omega

theorem Placed.steady_storeNew (placed : Placed (w.bytes .idx) (w.bytes .dat) img lists)
    (chain : s ≠ 0)
    (onChain : OnChain s.off db) (sized : (w.bytes .dat).length < 2 ^ 63)
    (valid : cInt (strlen data + 1 : Nat) ≤ datlenMax) :
    Steady w (dbStoreNew key data (cInt (strlen key)) (cInt (strlen data + 1 : Nat))) db
      fun _ _ w' => HasPlaces w'.bytes := by
  have next := placed.start s
  set v := (lists s).head?.getD 0
  refine .getThen ?_
  rw [onChain.chain]
  refine .bind (Steady.readptr db (placed.ptr_hasAt next) (placed.small next)) ?_
  rintro _ db₁ w₁ ⟨rfl, rfl, bytes₁⟩
  rw [← bytes₁] at placed sized
  obtain ⟨rc, db₂, w₂, takes, taken, kept⟩ :=
    placed.exec_findfree (isInt_cInt (strlen key)) (isInt_cInt (strlen data + 1 : Nat)) db₁
  refine .bind (Steady.of_exec takes ⟨rfl, rfl, rfl⟩ (Q := fun free db' w' => free = rc ∧
    db' = db₂ ∧ w' = w₂)) ?_
  rintro _ db₂ w₂ ⟨rfl, rfl, rfl⟩
  have onChain₂ := kept _ onChain
  cases taken with
  | none unfit bytes₂ =>
    rw [← bytes₂] at placed sized
    rw [if_pos (by decide)]
    exact .bind (placed.steady_storeAppend chain onChain₂ sized valid next) fun _ _ _ places =>
      .modified places
  | @first before after x e _ _ fit current bytes₂ =>
    have member : x ∈ lists 0 := by simp [fit.split]
    have unlinked := placed.unlink fit.split fit.found
    have idx₂ : w₂.bytes .idx = writeAt (w₁.bytes .idx) (lastCell freeOff before)
        (encPtr e.ptr) := by
      rw [bytes₂, Function.update_self]
    have dat₂ : w₂.bytes .dat = w₁.bytes .dat := by rw [bytes₂, Function.update_of_ne (by decide)]
    rw [Slot.off_zero, ← idx₂, ← dat₂] at unlinked
    have next₂ := unlinked.start s
    rw [Function.update_of_ne chain] at next₂
    rw [if_neg (by decide)]
    exact .bind (unlinked.steady_storeReuse chain (placed.unlink_found fit.split fit.found)
      (placed.linked.unlinked fit.split)
      (placed.member_small member) current onChain₂ next₂ fit.key fit.data) fun _ _ _ places =>
        .modified places

theorem Placed.steady_storeOld (placed : Placed (w.bytes .idx) (w.bytes .dat) img lists)
    (chain : s ≠ 0)
    (hit : Hit img (lists s) s.off db before x after e) (onChain : OnChain s.off db)
    (sized : (w.bytes .dat).length < 2 ^ 63)
    {datlen : Int} (valid : cInt (strlen data + 1 : Nat) ≤ datlenMax) :
    Steady w (dbStoreOld key data datlen) db fun _ _ w' => HasPlaces w'.bytes := by
  refine .getThen ?_
  split
  · obtain ⟨db₁, w₁, deletes, ⟨img₁, lists₁, placed₁⟩, datLength, onChain₁⟩ :=
      placed.exec_dodelete chain hit onChain
    refine .bind (Steady.of_exec deletes ⟨rfl, rfl⟩ (Q := fun _ db' w' => db' = db₁ ∧ w' = w₁)) ?_
    rintro - db₁ w₁ ⟨rfl, rfl⟩
    have next := placed₁.start s
    refine .getThen ?_
    rw [onChain₁.chain]
    refine .bind (Steady.readptr db₁ (placed₁.ptr_hasAt next) (placed₁.small next)) ?_
    rintro _ db₂ w₂ ⟨rfl, rfl, bytes₂⟩
    rw [← bytes₂] at placed₁ datLength
    exact .bind (placed₁.steady_storeAppend chain onChain₁ (datLength ▸ sized) valid next)
      fun _ _ _ places => .modified places
  · have target : w.target () .dat db.datoff .set = e.doff := hit.current.datoff
    refine .bind (placed.steady_writedat db target) ?_
    rintro - db₁ w₁ ⟨-, -, bytes₁⟩
    exact .modified ⟨img, lists, placed.overwritten bytes₁⟩

/-! ## The calls -/

theorem Placed.steady_store (placed : Placed (w.bytes .idx) (w.bytes .dat) img lists)
    (nhash : db.nhash = nhashDef)
    (hashoff : db.hashoff = hashOff) (sized : (w.bytes .dat).length < 2 ^ 63) (key data : Bytes)
    (flag : Int) :
    Steady w (dbStore key data flag) db fun _ _ w' => HasPlaces w'.bytes := by
  have places : HasPlaces w.bytes := ⟨img, lists, placed⟩
  have chain := Slot.ofKey_ne_zero key
  unfold dbStore
  split
  · exact .pure places
  dsimp only
  split
  · exact Steady.abort places
  rename_i valid
  have valid : cInt (strlen data + 1 : Nat) ≤ datlenMax := not_lt.1 (not_or.1 valid).2
  refine .bind (placed.steady_find nhash hashoff key true) ?_
  rintro found db₁ w₁ ⟨bytes₁, onChain, located⟩
  rw [← bytes₁] at placed sized places
  rw [← Slot.off_ofKey] at onChain
  have stores : Steady w₁
      (storeFound key data (cInt (strlen key)) (cInt (strlen data + 1 : Nat)) flag found) db₁
      fun _ _ w' => HasPlaces w'.bytes := by
    unfold storeFound
    obtain rfl | ⟨rfl, before, x, after, e, hit⟩ := located
    · rw [if_pos (by decide)]
      split
      · exact .modifyThen (.pure places)
      · exact .bind (placed.steady_storeNew chain onChain sized valid) fun _ _ _ places =>
          .pure places
    · rw [if_neg (by decide)]
      split
      · exact .modifyThen (.pure places)
      · rw [← Slot.off_ofKey] at hit
        exact .bind (placed.steady_storeOld chain hit onChain sized valid) fun _ _ _ places =>
          .pure places
  refine .bind stores fun rc db₂ w₂ places₂ => ?_
  refine .bind (.getThen Steady.unLock) ?_
  rintro - db₃ w₃ ⟨-, bytes₃⟩
  exact .pure (bytes₃ ▸ places₂)

theorem Placed.steady_delete (placed : Placed (w.bytes .idx) (w.bytes .dat) img lists)
    (nhash : db.nhash = nhashDef)
    (hashoff : db.hashoff = hashOff) (key : Bytes) :
    Steady w (dbDelete key) db fun _ _ w' => HasPlaces w'.bytes := by
  refine .bind (placed.steady_find nhash hashoff key true) ?_
  rintro found db₁ w₁ ⟨bytes₁, onChain, located⟩
  rw [← bytes₁] at placed
  rw [← Slot.off_ofKey] at onChain
  have deletes : Steady w₁ (deleteFound found) db₁ fun _ _ w' => HasPlaces w'.bytes := by
    unfold deleteFound
    obtain rfl | ⟨rfl, before, x, after, e, hit⟩ := located
    · exact .modifyThen (.pure ⟨img, lists, placed⟩)
    · rw [← Slot.off_ofKey] at hit
      obtain ⟨db₂, w₂, runs, places, -⟩ := placed.exec_dodelete (Slot.ofKey_ne_zero key) hit onChain
      exact .bind (Steady.of_exec runs places (Q := fun _ _ w' => HasPlaces w'.bytes))
          fun _ _ _ places =>
        .modifyThen (.pure places)
  refine .bind deletes fun rc db₂ w₂ places₂ => ?_
  refine .bind (.getThen Steady.unLock) ?_
  rintro - db₃ w₃ ⟨-, bytes₃⟩
  exact .pure (bytes₃ ▸ places₂)

theorem ReadsOnly.fetch (key : Bytes) : ReadsOnly (dbFetch key) := by
  refine .bind (findAndLock key false) fun _ => .bind (.ite ?_ ?_) fun _ =>
    .bind (.get fun _ => unLock ..) fun _ => .pure _
  · exact .bind (modified _) fun _ => .pure _
  · exact .bind readdat fun _ => .bind (modified _) fun _ => .pure _

theorem ReadsOnly.rewind : ReadsOnly dbRewind := .get fun _ => .bind (lseek ..) fun _ => modified _

/-- Opening a file without truncating it. -/
theorem Steady.openFile {file : File} {creat : Bool} :
    Steady w (Db.openFile file creat false) db fun _ _ w' => w'.bytes = w.bytes := by
  refine .call trivial fun answer w' answers => ?_
  change fileKernel () (.openFile file creat false) w = some (answer, w') at answers
  rw [fileKernel] at answers
  split at answers <;> cases answers
  · rfl
  · exact Function.update_eq_self ..

theorem HasPlaces.steady_open (places : HasPlaces w.bytes) {oflag : Oflag}
    (keeps : oflag.trunc = false) (db : DB) :
    Steady w (dbOpen oflag) db fun _ _ w' => HasPlaces w'.bytes := by
  refine .bind (.set (Q := fun _ _ w' => HasPlaces w'.bytes) places) fun _ db₁ w₁ places₁ => ?_
  rw [keeps]
  refine .bind Steady.openFile fun idxfd db₂ w₂ bytes₂ => .bind Steady.openFile
    fun datfd db₃ w₃ bytes₃ => ?_
  have places₃ : HasPlaces w₃.bytes := bytes₃ ▸ bytes₂ ▸ places₁
  split
  · have closes (file : File) : ReadsOnly (close file) := ReadsOnly.sys trivial
    have last : ReadsOnly (if datfd = true then close .dat else pure ()) :=
      .ite (closes .dat) (.pure ())
    have frees : ReadsOnly (dbFree idxfd datfd) := .ite (.bind (closes .idx) fun _ => last) last
    exact Steady.of_readsOnly (.bind frees fun _ => .pure _) places₃
  · rw [Bool.and_false, if_neg Bool.false_ne_true]
    exact Steady.of_readsOnly (.bind ReadsOnly.rewind fun _ => .pure _) places₃

/-- A call of the library that does not truncate the files, through a handle of `db_open`. -/
theorem Placed.steady_call (placed : Placed (w.bytes .idx) (w.bytes .dat) img lists)
    (nhash : db.nhash = nhashDef)
    (hashoff : db.hashoff = hashOff) (sized : (w.bytes .dat).length < 2 ^ 63) (op : Op)
    (keeps : ∀ oflag, op = .open oflag → oflag.trunc = false) :
    Steady w (dbCall op) db fun _ _ w' => HasPlaces w'.bytes := by
  have places : HasPlaces w.bytes := ⟨img, lists, placed⟩
  cases op with
  | «open» oflag =>
    exact .bind (places.steady_open (keeps oflag rfl) db) fun _ _ _ places => .pure places
  | fetch key => exact Steady.of_readsOnly (.bind (ReadsOnly.fetch key) fun _ => .pure _) places
  | store key data flag =>
    exact .bind (placed.steady_store nhash hashoff sized key data flag.code) fun _ _ _ places =>
      .pure places
  | delete key =>
    exact .bind (placed.steady_delete nhash hashoff key) fun _ _ _ places => .pure places
  | rewind => exact Steady.of_readsOnly (.bind ReadsOnly.rewind fun _ => .pure _) places
  | nextrec => exact Steady.of_readsOnly (.bind ReadsOnly.nextrec fun _ => .pure _) places

/-! ## Every state -/

/-- The files after any calls on a new database: each call is made through a handle and from any
offset, and goes to its end or stops the process. -/
inductive Reached : (File → Bytes) → Prop where
  | created {w w' : World Unit File} {db db' : DB} (unlocked : w.locks = [])
      (opens : Exec soloKernel (dbOpen ⟨true, true⟩ db) w (.returned (true, db')) w') :
        Reached w'.bytes
  | call {w w' : World Unit File} {db : DB} {op : Op} {outcome : Outcome Err (Res × DB)} (earlier : Reached w.bytes)
      (nhash : db.nhash = nhashDef) (hashoff : db.hashoff =
        hashOff) (sized : (w.bytes .dat).length < 2 ^ 63)
      (keeps : ∀ oflag, op = .open oflag → oflag.trunc = false)
      (runs : Exec soloKernel (dbCall op db) w outcome w') : Reached w'.bytes

theorem Reached.hasPlaces {files : File → Bytes} (reached : Reached files) : HasPlaces files := by
  induction reached with
  | created unlocked opens =>
    obtain ⟨usable, -⟩ := Usable.of_open unlocked opens
    exact ⟨_, _, usable.rep.placed⟩
  | @call w w' db op outcome _ nhash hashoff sized keeps runs places =>
    obtain ⟨img, lists, placed⟩ := places
    have holds := Checker.Follows.running (placed.steady_call nhash hashoff sized _ keeps) runs
    cases outcome with
    | returned result => exact holds
    | aborted error => exact holds

end Apue.Db
