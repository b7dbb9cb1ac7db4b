import Apue.Db.Places

/-! # Taking a free record again

`_db_findfree` and the writes of `db_store` after it, for one process on its own.  The walk passes
over the free records of other sizes and takes the first that fits off the list, by one write to the
pointer that leads to it.  The text of an index record has the offset and the length of the data in
it, which stay the same, so a key of the old length makes a record of the old length.
-/

namespace Apue.Db

open Apue.Base

variable {w w' : World Unit File} {db db' : DB} {img : Image} {lists : Slot → List Nat}
    {dat : Bytes} {before after : List Nat}
  {x v : Nat} {e : Entry} {keylen datlen : Int}

/-! ## Calls on files in order -/

theorem exec_readptr (db : DB) {off : Nat} (stands : HasAt (w.bytes .idx) off (encPtr v))
    (small : v ≤ ptrMax) :
    ∃ w', Exec soloKernel (dbReadptr off db) w (.returned ((v : Int), db)) w' ∧
      w'.bytes = w.bytes := by
  have target : w.target () .idx off .set = off := rfl
  have value := stands.read
  rw [encPtr_length] at value
  let w₁ := w.setPos () .idx off
  have reads := exec_read w₁ db .idx ptrSz
  rw [show w₁.pos () .idx = off from setPos_pos_self w .idx off,
    show readAt (w₁.bytes .idx) off ptrSz = encPtr v from value] at reads
  refine ⟨w₁.setPos () .idx (off + (encPtr v).length),
    Exec.bind (exec_lseek db .readptrLseek target) (Exec.bind reads ?_), rfl⟩
  refine Code.exec_else (not_not_intro (encPtr_length v)) ?_
  rw [atol_encPtr small]
  exact .ret _ _

theorem exec_writedat (db : DB) {data : Bytes} {offset : Int} {whence : Whence} {n : Nat}
    (short : strlen data + 1 ≤ writeMax)
    (target : w.target () .dat offset whence = n) :
    ∃ w', Exec soloKernel (dbWritedat data offset whence db) w
        (.returned ((), { db with datoff := n, datlen := strlen data + 1 })) w' ∧
      w'.bytes = Function.update w.bytes .dat
        (writeAt (w.bytes .dat) n (cstr data ++ [newline])) := by
  have bufferShort : (cstr data ++ [newline]).length ≤ writeMax := by
    rw [List.length_append, List.length_singleton]
    exact short
  obtain ⟨w', runs, -, bytes⟩ :=
    exec_seekWrite (f := fun n db => { db with datoff := n, datlen := strlen data + 1 })
    .writedatLock .writedatLseek .writedatWritev .writedatUnlock bufferShort target
  exact ⟨w', runs, bytes⟩

/-- `_db_readidx` on a record without a separator in its key. -/
theorem Placed.readidx (placed : Placed (w.bytes .idx) dat img lists) (db : DB)
    (found : img.entryAt x = some e)
    (plain : sep ∉ e.key) :
    ∃ rest w', Exec soloKernel (dbReadidx x db) w (.returned ((e.ptr : Int), db.load x e rest)) w' ∧
      w'.bytes = w.bytes := by
  have stands := placed.hasAt found
  rw [e.enc_eq] at stands
  have nonzero : (x : Int) ≠ 0 := by
    have high := Image.entryAt_records found
    simp only [recordsOff, nhashDef, ptrSz] at high
    omega
  have target : w.target () .idx x (if (x : Int) = 0 then .cur else .set) = x := by
    rw [if_neg nonzero]
    rfl
  exact ((placed.all.entry found).writable plain).reads stands db target

/-! ## The walk -/

/-- The `int`s. -/
def IsInt (z : Int) : Prop := -2 ^ 31 ≤ z ∧ z < 2 ^ 31

instance (z : Int) : Decidable (IsInt z) := inferInstanceAs (Decidable (_ ∧ _))

/-- The record has a key and data of these lengths, the newline counted with the data. -/
def Image.Sized (img : Image) (keylen datlen : Int) (x : Nat) : Prop :=
  ∃ e, img.entryAt x = some e ∧ (e.key.length : Int) = keylen ∧ (e.dlen : Int) = datlen

theorem sizeT_eq_iff {n : Nat} {z : Int} (small : n < 2 ^ 31) (isInt : IsInt z) :
    n = sizeT z ↔ (n : Int) = z := by
  obtain ⟨low, high⟩ := isInt
  unfold sizeT
  omega

/-- The first record of the free list that has these lengths. -/
structure FirstFit (img : Image) (free : List Nat) (keylen datlen : Int) (before : List Nat)
    (x : Nat) (after : List Nat)
    (e : Entry) : Prop where
  split : free = before ++ x :: after
  unfit : ∀ y ∈ before, ¬img.Sized keylen datlen y
  found : img.entryAt x = some e
  key : (e.key.length : Int) = keylen
  data : (e.dlen : Int) = datlen

/-- How the walk along the free list ends. -/
inductive Finds (img : Image) (free : List Nat) (keylen datlen : Int) : Int × Int → DB → Prop where
  | none {saveoffset : Int} {db' : DB} (unfit : ∀ y ∈ free, ¬img.Sized keylen datlen y) :
      Finds img free keylen datlen (saveoffset, 0) db'
  | first {before after : List Nat} {x : Nat} {e : Entry} {db' : DB} (fit : FirstFit img free keylen datlen before x after e)
      (current : Current db' x e) :
        Finds img free keylen datlen ((lastCell freeOff before : Nat), (x : Nat)) db'

/-- On what is left of the free list: the records before were of other sizes. -/
theorem Placed.findfreeLoop (placed : Placed (w.bytes .idx) dat img lists) (intKey : IsInt keylen)
    (intData : IsInt datlen)
    (split : lists 0 = before ++ after) (unfit : ∀ y ∈ before, ¬img.Sized keylen datlen y)
    (db : DB) :
    ∃ place db' w', Exec soloKernel
        (Code.loop (findfreeTurn keylen datlen) ((lastCell freeOff before : Nat),
          (after.head?.getD 0 : Nat)) db) w
        (.returned (place, db')) w' ∧
      w'.bytes = w.bytes ∧ Finds img (lists 0) keylen datlen place db' ∧ ∀ c, OnChain c db →
        OnChain c db' := by
  induction after generalizing before db w with
  | nil =>
    rw [List.append_nil] at split
    have ends : Exec soloKernel
        (findfreeTurn keylen datlen ((lastCell freeOff before : Nat), 0) db) w
        (.returned (.inr ((lastCell freeOff before : Nat), 0), db)) w := .ret _ _
    exact ⟨_, db, w, Code.exec_loop_leave ends, rfl, .none (split ▸ unfit), fun _ => id⟩
  | cons x after inductionHypothesis =>
    have member : x ∈ lists 0 := by simp [split]
    obtain ⟨e, found⟩ := placed.records 0 x member
    have written := placed.all.entry found
    have plain := sep_notMem_of_isBlank (placed.blank x member e found)
    obtain ⟨rest, w₁, reads, bytes₁⟩ := placed.readidx db found plain
    have nonzero : (x : Int) ≠ 0 := by exact_mod_cast placed.ne_zero member
    have strlenKey : strlen (db.load x e rest).idxbuf = e.key.length := by
      simp [strlen, DB.load, cstr_append_zero written.clean]
    have shortKey : e.key.length < 2 ^ 31 := by
      have text := written.length.2
      rw [e.text_length] at text
      simp only [idxlenMax] at text
      omega
    have shortData : e.dlen < 2 ^ 31 := Nat.lt_of_le_of_lt written.size (by decide)
    have test : (strlen (db.load x e rest).idxbuf = sizeT keylen ∧
        (db.load x e rest).datlen = sizeT datlen) ↔
        (e.key.length : Int) = keylen ∧ (e.dlen : Int) = datlen := by
      rw [strlenKey, sizeT_eq_iff shortKey intKey, show (db.load x e rest).datlen = e.dlen from rfl,
        sizeT_eq_iff shortData intData]
    have kept (c : Nat) (onChain : OnChain c db) : OnChain c (db.load x e rest) :=
      ⟨onChain.nhash, onChain.hashoff, onChain.chain⟩
    by_cases fits : (e.key.length : Int) = keylen ∧ (e.dlen : Int) = datlen
    · have fit : FirstFit img (lists 0) keylen datlen before x after e :=
        ⟨split, unfit, found, fits.1, fits.2⟩
      refine ⟨_, _, w₁, Code.exec_loop_leave ?_, bytes₁,
        .first fit (DB.load_current db x e rest), kept⟩
      refine Code.exec_else nonzero (Exec.bind reads (Exec.bind (.ret _ _) ?_))
      exact Code.exec_if (test.2 fits) (.ret _ _)
    · have next := placed.next split found
      have unfit' (y : Nat) (inBefore : y ∈ before ++ [x]) : ¬img.Sized keylen datlen y := by
        obtain old | here := List.mem_append.1 inBefore
        · exact unfit y old
        · obtain rfl := List.mem_singleton.1 here
          rintro ⟨d, found', sizes⟩
          rw [found] at found'
          cases found'
          exact fits sizes
      rw [← bytes₁] at placed
      obtain ⟨place, db', w', walks, bytes, finds, kept'⟩ := inductionHypothesis placed
        (split.trans (List.append_cons before x after)) unfit' (db.load x e rest)
      rw [lastCell_append_singleton, ← next] at walks
      refine ⟨place, db', w', Code.exec_loop_again ?_ walks, bytes.trans bytes₁, finds,
        fun c onChain => kept' c (kept c onChain)⟩
      refine Code.exec_else nonzero (Exec.bind reads (Exec.bind (.ret _ _) ?_))
      exact Code.exec_else (fun both => fits (test.1 both)) (.ret _ _)

/-! ## The whole of `_db_findfree` -/

/-- What `_db_findfree` has done: it takes nothing, or the first record that fits, with one write to
the pointer before it. -/
inductive Takes (w : World Unit File) (img : Image) (free : List Nat) (keylen datlen : Int) :
    Int → DB → World Unit File → Prop where
  | none {db' : DB} {w' : World Unit File} (unfit : ∀ y ∈ free, ¬img.Sized keylen datlen y) (bytes : w'.bytes = w.bytes) :
      Takes w img free keylen datlen (-1) db' w'
  | first {before after : List Nat} {x : Nat} {e : Entry} {db' : DB} {w' : World Unit File}
      (fit : FirstFit img free keylen datlen before x after e) (current : Current db' x e)
      (bytes : w'.bytes = Function.update w.bytes .idx
        (writeAt (w.bytes .idx) (lastCell freeOff before) (encPtr e.ptr))) :
      Takes w img free keylen datlen 0 db' w'

/-- Every call of `_db_findfree` returns. -/
theorem Placed.exec_findfree (placed : Placed (w.bytes .idx) dat img lists) (intKey : IsInt keylen)
    (intData : IsInt datlen)
    (db : DB) :
    ∃ rc db' w', Exec soloKernel (dbFindfree keylen datlen db) w (.returned (rc, db')) w' ∧
      Takes w img (lists 0) keylen datlen rc db' w' ∧ ∀ c, OnChain c db → OnChain c db' := by
  obtain ⟨w₁, locks, bytes₁, -⟩ := exec_lockReg w db .idx .write freeOff 1 .findfreeLock
  have start := placed.ptr_hasAt (placed.start 0)
  rw [← bytes₁] at start placed
  obtain ⟨w₂, reads, bytes₂⟩ := exec_readptr db start (placed.small (placed.start 0))
  rw [← bytes₂] at placed
  obtain ⟨⟨saveoffset, offset⟩, db', w₃, walks, bytes₃, finds, kept⟩ :=
    placed.findfreeLoop intKey intData (show lists 0 = [] ++ lists 0 from rfl) (by simp) db
  have bytes : w₃.bytes = w.bytes := (bytes₃.trans bytes₂).trans bytes₁
  -- what is left when the walk has ended
  have go {rc : Int} {w₄ : World Unit File}
      (unlinks : Exec soloKernel (findfreeUnlink saveoffset offset db') w₃
      (.returned (rc, db')) w₄) :
        ∃ w', Exec soloKernel (dbFindfree keylen datlen db) w (.returned (rc, db')) w' ∧
      w'.bytes = w₄.bytes := by
    obtain ⟨w', unlocks, bytes', -⟩ := exec_unLock w₄ db' .idx freeOff 1 .findfreeUnlock
    exact ⟨w', Exec.bind locks
      (Exec.bind reads (Exec.bind walks (Exec.bind unlinks (Exec.bind unlocks (.ret _ _))))),
      bytes'⟩
  cases finds with
  | none unfit =>
    obtain ⟨w', runs, bytes'⟩ := go (.ret _ _)
    exact ⟨-1, db', w', runs, .none unfit (bytes'.trans bytes), kept⟩
  | @first before after x e _ fit current =>
    have member : x ∈ lists 0 := by simp [fit.split]
    have nonzero : (x : Int) ≠ 0 := by exact_mod_cast placed.ne_zero member
    obtain ⟨w₄, writes, bytes₄⟩ :=
      exec_writeptr db' w₃ (lastCell freeOff before) (placed.all.entry fit.found).ptr
    rw [← current.ptrval] at writes
    obtain ⟨w', runs, bytes'⟩ :=
      go (Code.exec_else nonzero (Exec.bind (.ret _ _) (Exec.bind writes (.ret _ _))))
    rw [bytes₄, bytes] at bytes'
    exact ⟨0, db', w', runs, .first fit current bytes', kept⟩

/-! ## A record in the place of a free one -/

section Reuse

variable {key data : Bytes} {c : Nat}

/-- The record that takes the place of `e`. -/
def Entry.reused (e : Entry) (v : Nat) (key data : Bytes) : Entry :=
  ⟨v, cstr key, e.doff, cstr data⟩

/-- The text of the record has the offset and the length of the data in it, and they are the old
ones. -/
theorem Entry.reused_text_length (sameKey : strlen key = e.key.length)
    (sameData : strlen data + 1 = e.dlen) (v : Nat) :
    (e.reused v key data).text.length = e.text.length := by
  have sameLength : (e.reused v key data).dlen = e.dlen := sameData
  rw [Entry.text_length, Entry.text_length, sameLength]
  exact congrArg (· + (decimal e.doff).length + (decimal e.dlen).length + 3) sameKey

theorem Entry.Written.reused (written : e.Written) (small : v ≤ ptrMax)
    (sameKey : strlen key = e.key.length)
    (sameData : strlen data + 1 = e.dlen) : (e.reused v key data).Written :=
  ⟨small, nulFree_cstr key, written.offset, (Nat.le_of_eq sameData).trans written.size,
    Entry.reused_text_length sameKey sameData v ▸ written.length⟩

theorem exec_storeReuse (written : e.Written) (current : Current db x e) (onChain : OnChain c db)
    (smallX : x ≤ ptrMax)
    (small : v ≤ ptrMax) (sameKey : strlen key = e.key.length)
    (sameData : strlen data + 1 = e.dlen) :
    ∃ db' w', Exec soloKernel (storeReuse key data v db) w (.returned ((), db')) w' ∧
      w'.bytes .dat = writeAt (w.bytes .dat) e.doff (cstr data ++ [newline]) ∧
      w'.bytes .idx = writeAt (writeAt (w.bytes .idx) x (e.reused v key data).enc) c
        (encPtr x) := by
  have short : strlen data + 1 ≤ writeMax := by
    rw [sameData]
    exact Nat.le_trans written.size (by decide)
  have target : w.target () .dat db.datoff .set = e.doff := current.datoff
  obtain ⟨w₁, puts, bytes₁⟩ := exec_writedat db short target
  let db₁ : DB := { db with datoff := e.doff, datlen := strlen data + 1 }
  have target₁ : w₁.target () .idx db₁.idxoff .set = x := congrArg Nat.cast current.idxoff
  have length := (written.reused small sameKey sameData).length
  obtain ⟨w₂, writes, -, bytes₂⟩ := exec_writeidx db₁ key small length target₁
  let db₂ : DB := { db₁ with ptrval := v, idxbuf := idxText (cstr key) e.doff (strlen data + 1) ++ [0], idxoff := x }
  obtain ⟨w₃, links, bytes₃⟩ := exec_writeptr db₂ w₂ c smallX
  rw [← onChain.chain] at links
  refine ⟨db₂, w₃, ?_, ?_, ?_⟩
  · exact Exec.bind (.ret _ _)
      (Exec.bind puts (Exec.bind (.ret _ _) (Exec.bind writes (Exec.bind (.ret _ _) links))))
  · rw [bytes₃, Function.update_of_ne (by decide), bytes₂, Function.update_of_ne (by decide),
      bytes₁, Function.update_self]
  · rw [bytes₃, Function.update_self, bytes₂, Function.update_self, bytes₁,
      Function.update_of_ne (by decide),
      Entry.enc_eq]
    rfl

end Reuse

end Apue.Db
