import Apue.Db.Walk

/-! # Reading one record after the other

`db_nextrec` holds the free list to read, and no chain: others may be storing while it reads.  What
it relies on is that records stay where they are and, as long as it holds the free list, that a key
once written stays.
-/

namespace Apue.Db

open Apue.Base St

variable {ι : Type} [DecidableEq ι] {room : Nat} {env : ι → FileCall File → St ι → Prop}
    {E : Err → St ι → Prop} {p : ι}
  {σ τ : St ι} {db : DB} {op : Op}

/-! ## Effects of reading -/

/-- The operation has its effect on the object, if it has an answer. -/
def St.answer (σ : St ι) (p : ι) (op : Op) : Option Res → St ι
  | some res => σ.setObj (σ.obj.setStatus p (.done op res))
  | none => σ

theorem Coherent.answer (inv : Coherent room σ)
    (unheld : ∀ h < nhashDef, ¬σ.Holds p (.chain h) .write) (op : Op)
    (res : Option Res) : Coherent room (σ.answer p op res) := by
  cases res with
  | none => exact inv
  | some res => exact inv.setStatus unheld (fun q other => Atomic.setStatus_other _ _ other) rfl

theorem St.answer_same (σ : St ι) (p : ι) (op : Op) (res : Option Res) (o : Owner ι) :
    σ.Same (σ.answer p op res) o := by
  cases res with
  | none => exact .refl σ o
  | some res =>
    exact St.setObj_same (show (σ.obj.setStatus p (.done op res)).value = σ.map from rfl) o

theorem St.answer_guar {file : File} {offset : Nat} {res : Option Res}
    (pending : σ.obj.status p = .pending op)
    (allowed : ∀ r, res = some r → dbSpec σ.obj op r σ.map) :
    Guar p σ ((σ.seek p file offset).answer p op res) := by
  have frame := (σ.seek_frame p file offset).guar
  cases res with
  | none => exact frame
  | some r =>
    refine ⟨frame.pos, frame.locks, fun o untouched => (frame.same o untouched).trans
      (St.answer_same _ p op (some r) o),
      frame.grows, frame.lasting, .inr ?_⟩
    exact Atomic.Step.effect pending (allowed r rfl)

@[simp] theorem St.answer_w (σ : St ι) (p : ι) (op : Op) (res : Option Res) : (σ.answer p op res).w = σ.w := by
  cases res <;> rfl

@[simp] theorem St.answer_img (σ : St ι) (p : ι) (op : Op) (res : Option Res) : (σ.answer p op res).img = σ.img := by
  cases res <;> rfl

@[simp] theorem St.answer_members (σ : St ι) (p : ι) (op : Op) (res : Option Res) :
    (σ.answer p op res).members = σ.members := by
  cases res <;> rfl

theorem St.answer_status (σ : St ι) (p : ι) (op : Op) (res : Option Res) :
    (σ.answer p op res).obj.status p = match res with
      | some r => .done op r
      | none => σ.obj.status p := by
  cases res with
  | none => rfl
  | some r => exact Atomic.setStatus_self ..

/-- Reading may be the effect of an operation that changes nothing. -/
theorem triple_readEffect {file : File} {count : Nat} (f : Bytes → Option Res)
    (unheld : ∀ h < nhashDef, ¬σ.Holds p (.chain h) .write) (pending : σ.obj.status p = .pending op)
    (allowed : ∀ τ, Rely p σ τ → Coherent room τ → ∀ r,
      f (readAt (τ.w.bytes file) (σ.w.pos p file) count) = some r → dbSpec τ.obj op r τ.map) :
    Triple (discipline room env) p E σ (read file count) db fun r db' σ' =>
      db' = db ∧ ∃ τ, Rely p σ τ ∧ Coherent room τ ∧
        r = readAt (τ.w.bytes file) (σ.w.pos p file) count ∧
        σ' = (τ.seek p file (σ.w.pos p file + r.length)).answer p op (f r) := by
  refine triple_readAt fun τ relied inv => ?_
  have unheldT (h : Nat) (real : h < nhashDef) : ¬τ.Holds p (.chain h) .write := fun held =>
    unheld h real ((relied.locks _).1 held)
  let bytes := readAt (τ.w.bytes file) (σ.w.pos p file) count
  have guar : Guar p τ ((τ.seek p file (σ.w.pos p file + bytes.length)).answer p op (f bytes)) :=
    St.answer_guar (relied.status.trans pending) (allowed τ relied inv)
  refine ⟨_, _, ?_, guar, (inv.seek p file _).answer unheldT op _, Rely.refl p _, τ, relied,
    inv, rfl, rfl⟩
  exact St.answer_w ..

/-! ## Record boundaries -/

/-- The offset is the start of the records or the end of one. -/
def Boundary (img : Image) (n : Nat) : Prop :=
  n = recordsOff ∨ ∃ y e, img.entryAt y = some e ∧ n = y + 11 + e.text.length

theorem Image.entryAt_first (img : Image) :
    img.size = recordsOff ∨ ∃ e, img.entryAt recordsOff = some e := by
  cases recs : img.recs with
  | nil => exact .inl (by simp [Image.size, recs, tiles])
  | cons e rest =>
    refine .inr ⟨e, ?_⟩
    rw [Image.entryAt, if_neg (Nat.lt_irrefl _), Nat.sub_self, recs]
    exact tileAt_middle Entry.enc_solid [] rest e

theorem Boundary.next {img : Image} {n : Nat} (boundary : Boundary img n) :
    n = img.size ∨ ∃ e, img.entryAt n = some e := by
  rcases boundary with rfl | ⟨y, e, found, rfl⟩
  · exact img.entryAt_first.imp Eq.symm id
  · exact Image.entryAt_next found

omit [DecidableEq ι] in
theorem Boundary.later {n : Nat} (boundary : Boundary σ.img n) (grows : σ.Grows τ) :
    Boundary τ.img n := by
  rcases boundary with rfl | ⟨y, e, found, rfl⟩
  · exact .inl rfl
  · obtain ⟨e', found', length⟩ := grows y e found
    exact .inr ⟨y, e', found', by rw [length]⟩

/-- What a scan from `n` finds next, and where it leaves the offset, while nobody writes. -/
def NextIs (img : Image) (n : Nat) (record : Option (Bytes × Bytes)) (n' : Nat) : Prop :=
  (∃ x e, img.entryAt x = some e ∧ isBlank e.key = false ∧ n ≤ x ∧
      (∀ y d, n ≤ y → y < x → img.entryAt y = some d → isBlank d.key = true) ∧
      record = some (e.key, e.data) ∧ n' = x + 11 + e.text.length) ∨
    (record = none ∧ n' = img.size ∧ ∀ y d, n ≤ y → img.entryAt y = some d → isBlank d.key = true)

/-! ## One record -/

/-- The text of the record at `x`, whatever it is by now. -/
theorem triple_readidxRecordSeen {x len ptr : Nat} (small : ptr ≤ ptrMax) (lenMin : idxlenMin ≤ len)
    (lenMax : len ≤ idxlenMax)
    (pos : σ.w.pos p .idx = x + 11) (there : ∃ e, σ.img.entryAt x = some e ∧ e.text.length = len) :
    Triple (discipline room env) p E σ (dbReadidxRecord (encPtr ptr ++ encLen len)) db
        fun r db' σ' =>
      r = ptr ∧ ∃ τ e rest, Rely p σ τ ∧ Coherent room τ ∧ τ.img.entryAt x = some e ∧
        e.text.length = len ∧
        db' = { db.load db.idxoff e rest with ptrval := ptr } ∧
          σ' = τ.seek p .idx (x + 11 + len) := by
  refine .modifyThen ?_
  simp only [atol_front small, sizeT_atoi_front _ lenMax]
  rw [if_neg (by omega)]
  refine .bind (triple_readSeen .idx len) ?_
  rintro _ _ _ ⟨rfl, τ, relied, inv, rfl, rfl⟩
  obtain ⟨e₀, found₀, length₀⟩ := there
  obtain ⟨e, found, length⟩ := relied.grows x e₀ found₀
  have len' : e.text.length = len := length.trans length₀
  have ok := inv.img.entry found
  have text : readAt (τ.w.bytes .idx) (σ.w.pos p .idx) len = e.text := by
    obtain ⟨before, after, split, atX⟩ := inv.img.entryAt_hasAt found
    have has : HasAt (τ.w.bytes .idx) (x + 11) e.text := by
      refine ⟨before ++ encPtr e.ptr ++ encLen e.text.length, after, ?_, ?_⟩
      · rw [inv.idx, split, Entry.enc]
        simp
      · simp [atX]
    rw [pos, ← len']
    exact has.read
  obtain ⟨rest, parsed⟩ := ok.parse
  rw [text, if_neg (by simp [len']), parsed]
  refine .modifyThen (.pure ⟨rfl, τ, e, rest, relied, inv, found, len', ?_, ?_⟩)
  · simp only [DB.load, len']
  · rw [pos, len']

/-- The process is inside `db_nextrec`, between two records. -/
structure Scanning (σ : St ι) (p : ι) : Prop where
  holding : Holding σ p [Place.free.lock .read]
  status : σ.obj.status p = .pending .nextrec
  boundary : Boundary σ.img (σ.w.pos p .idx)

omit [DecidableEq ι] in
theorem Scanning.unheld (scanning : Scanning σ p) (h : Nat) (real : h < nhashDef) :
    ¬σ.Holds p (.chain h) .write := by
  intro held
  have member := (scanning.holding _).1 held
  rw [List.mem_singleton] at member
  cases (Place.lock_inj (Place.chain_real real) Place.free_real member).1

/-- The end of the index file. -/
structure ScannedEnd (σ : St ι) (p : ι) (σ' : St ι) : Prop where
  holding : Holding σ' p [Place.free.lock .read]
  status : σ'.obj.status p = .done .nextrec (.record none)
  boundary : Boundary σ'.img (σ'.w.pos p .idx)
  lost : σ'.members .lost = σ.members .lost
  alone : Alone p → Untouched σ σ' ∧ σ.w.pos p .idx = σ.img.size ∧ σ'.w.pos p .idx = σ.img.size

/-- The record at the offset has been read; `e` is what it was then. -/
structure ScannedRecord (room : Nat) (σ : St ι) (p : ι) (e : Entry) (db : DB)
    (σ' : St ι) : Prop where
  scanning : Scanning σ' p
  found : σ'.img.entryAt (σ.w.pos p .idx) = some e
  pos : σ'.w.pos p .idx = σ.w.pos p .idx + 11 + e.text.length
  idxbuf : ∃ rest, db.idxbuf = e.key ++ 0 :: rest
  datoff : db.datoff = e.doff
  datlen : db.datlen = e.dlen
  ok : e.Ok
  inside : σ'.w.pos p .idx ≤ room
  lost : σ'.members .lost = σ.members .lost
  alone : Alone p → σ' = σ.seek p .idx (σ.w.pos p .idx + 11 + e.text.length)

theorem triple_readidxScan (scanning : Scanning σ p) :
    Triple (discipline room env) p E σ (dbReadidx 0) db fun r db' σ' =>
      db'.nhash = db.nhash ∧ db'.hashoff = db.hashoff ∧
        ((r = -1 ∧ ScannedEnd σ p σ') ∨ (0 ≤ r ∧ ∃ e, ScannedRecord room σ p e db' σ')) := by
  unfold dbReadidx
  rw [if_pos rfl]
  refine .bind (triple_seekCur .idx .readidxLseek) ?_
  rintro r _ _ ⟨offset, rfl, rfl⟩
  rw [offset]
  obtain ⟨x, isX⟩ : ∃ x, x = σ.w.pos p .idx := ⟨_, rfl⟩
  rw [← isX]
  have boundary : Boundary σ.img x := isX ▸ scanning.boundary
  refine .modifyThen ?_
  refine .bind (triple_readEffect (fun iov => if iov = [] then some (.record none) else none)
    scanning.unheld
    scanning.status ?_) ?_
  · intro τ relied inv r isRes
    split at isRes
    · cases isRes
      exact ⟨rfl, none, rfl, by simp⟩
    · cases isRes
  rintro iov _ _ ⟨rfl, τ, relied, inv, isIov, rfl⟩
  rw [St.seek_pos] at isIov ⊢
  have lost : τ.members .lost = σ.members .lost := relied.lost.members
  have holding : Holding τ p [Place.free.lock .read] :=
    Holding.later (show Holding (σ.seek p .idx x) p _ from scanning.holding) relied
  have later := boundary.later relied.grows
  rcases later.next with atEnd | ⟨e₁, found₁⟩
  · -- nothing is left
    have empty : iov = [] := by
      rw [isIov, inv.idx, atEnd, ← inv.img.bytes_length, readAt_end]
    rw [if_pos empty, if_neg (show ¬iov.length = ptrSz + idxlenSz by simp [empty, ptrSz]),
      if_pos (show iov.length = 0 ∧ (0 : Int) = 0 by simp [empty])]
    refine .pure ⟨rfl, rfl, .inl ⟨rfl, ?_⟩⟩
    rw [empty]
    refine ⟨holding, St.answer_status .., ?_, lost, fun only => ?_⟩
    · simp only [St.answer_img, St.answer_w, St.seek_pos]
      simpa using later
    · obtain rfl := relied.alone only
      refine ⟨⟨rfl, rfl, rfl, rfl, rfl⟩, isX ▸ atEnd, ?_⟩
      simpa using atEnd
  · have header : iov = encPtr e₁.ptr ++ encLen e₁.text.length := by
      obtain ⟨before, after, split, length⟩ := inv.img.entryAt_hasAt found₁
      have there : HasAt τ.img.bytes x (encPtr e₁.ptr ++ encLen e₁.text.length) :=
        ⟨before, e₁.text ++ after, by rw [split, Entry.enc]; simp, length⟩
      rw [isIov, inv.idx]
      simpa [ptrSz, idxlenSz] using there.read
    have ok₁ := inv.img.entry found₁
    have elevenLong : iov.length = 11 := by simp [header]
    rw [if_neg (show ¬iov = [] by rintro rfl; simp at elevenLong),
      if_pos (show iov.length = ptrSz + idxlenSz from elevenLong), header]
    refine (triple_readidxRecordSeen (x := x) (σ := τ.seek p .idx _) ok₁.ptr ok₁.textMin ok₁.textMax
      ?_ ⟨e₁, found₁, rfl⟩).weaken ?_
    · simp
    · rintro r db' σ' ⟨rfl, τ', e, rest, relied', inv', found, length, rfl, rfl⟩
      refine ⟨rfl, rfl, .inr ⟨Int.natCast_nonneg _, e, ⟨?_, ?_, ?_⟩, ?_, ?_, ⟨rest, rfl⟩, rfl, rfl,
        inv'.img.entry found, ?_, ?_, ?_⟩⟩
      · exact fun l => (relied'.locks l).trans (holding l)
      · exact relied'.status.trans (relied.status.trans scanning.status)
      · rw [St.seek_pos]
        exact .inr ⟨x, e, found, by rw [length]⟩
      · rw [← isX]
        exact found
      · rw [St.seek_pos, ← isX, length]
      · rw [St.seek_pos, ← length]
        exact Nat.le_trans (Image.entryAt_bound found) inv'.room
      · exact relied'.lost.members.trans lost
      · intro only
        have same' := relied'.alone only
        have same := relied.alone only
        rw [same', same, ← isX, length]
        simp

/-! ## The scan -/

/-- The scan from `n` passes over blank records only, up to `x`. -/
def Skips (img : Image) (n x : Nat) : Prop :=
  ∀ y d, n ≤ y → y < x → img.entryAt y = some d → isBlank d.key = true

/-- The scan has come to the end. -/
structure ReachedEnd (σ : St ι) (p : ι) (σ' : St ι) : Prop where
  holding : Holding σ' p [Place.free.lock .read]
  status : σ'.obj.status p = .done .nextrec (.record none)
  boundary : Boundary σ'.img (σ'.w.pos p .idx)
  lost : σ'.members .lost = σ.members .lost
  alone : Alone p → Untouched σ σ' ∧ Skips σ.img (σ.w.pos p .idx) σ.img.size ∧
    σ'.w.pos p .idx = σ.img.size

/-- The scan has stopped at the record at `x`, with a key that is not blank. -/
structure ReachedRecord (σ : St ι) (p : ι) (x : Nat) (e : Entry) (db : DB) (σ' : St ι) : Prop where
  scanning : Scanning σ' p
  found : σ'.img.entryAt x = some e
  visible : isBlank e.key = false
  pos : σ'.w.pos p .idx = x + 11 + e.text.length
  idxbuf : ∃ rest, db.idxbuf = e.key ++ 0 :: rest
  datoff : db.datoff = e.doff
  datlen : db.datlen = e.dlen
  ok : e.Ok
  lost : σ'.members .lost = σ.members .lost
  alone : Alone p → σ' = σ.seek p .idx (x + 11 + e.text.length) ∧ σ.w.pos p .idx ≤ x ∧
    Skips σ.img (σ.w.pos p .idx) x

theorem Skips.step {img : Image} {n x : Nat} {e : Entry} (found : img.entryAt n = some e)
    (blank : isBlank e.key = true)
    (rest : Skips img (n + 11 + e.text.length) x) : Skips img n x := by
  intro y d low high here
  by_cases same : y = n
  · rw [same, found] at here
    cases here
    exact blank
  · exact rest y d (Image.entryAt_apart found here (by omega)) high here

/-- The loop of `db_nextrec`, by induction on what is left of the index file. -/
theorem triple_nextrecLoop {fuel : Nat} (scanning : Scanning σ p)
    (measured : room - σ.w.pos p .idx ≤ fuel) :
    Triple (discipline room env) p E σ (Code.loop nextrecTurn ()) db fun found db' σ' =>
      db'.nhash = db.nhash ∧ db'.hashoff = db.hashoff ∧
        ((found = false ∧ ReachedEnd σ p σ') ∨
          (found = true ∧ ∃ x e, ReachedRecord σ p x e db' σ')) := by
  induction fuel using Nat.strong_induction_on generalizing σ db with
  | _ fuel inductionHypothesis =>
    refine .loop (.bind (triple_readidxScan scanning) ?_)
    rintro r db₁ σ₁ ⟨nhash, hashoff, ⟨rfl, scanned⟩ | ⟨positive, e, scanned⟩⟩
    · rw [if_pos (by decide)]
      refine .pure ⟨nhash, hashoff, .inl ⟨rfl, scanned.holding, scanned.status, scanned.boundary,
        scanned.lost, fun only => ?_⟩⟩
      obtain ⟨untouched, atEnd, pos⟩ := scanned.alone only
      exact ⟨untouched, fun y d low high => absurd high (by omega), pos⟩
    · rw [if_neg (by omega)]
      refine .get ?_
      obtain ⟨rest, idxbuf⟩ := scanned.idxbuf
      rw [show cstr db₁.idxbuf = e.key by rw [idxbuf, cstr_append_zero scanned.ok.keyClean]]
      cases blank : isBlank e.key with
      | false =>
        refine .pure ⟨nhash, hashoff, .inr ⟨rfl, _, e, scanned.scanning, scanned.found, blank,
          scanned.pos, scanned.idxbuf,
          scanned.datoff, scanned.datlen, scanned.ok, scanned.lost,
            fun only => ⟨scanned.alone only, Nat.le_refl _, ?_⟩⟩⟩
        exact fun y d low high => absurd high (by omega)
      | true =>
        refine .pure ?_
        have pos := scanned.pos
        have inside := scanned.inside
        refine (inductionHypothesis (room - σ₁.w.pos p .idx) (by omega) scanned.scanning
          (Nat.le_refl _)).weaken ?_
        rintro found db' σ' ⟨nhash', hashoff', outcome⟩
        refine ⟨nhash'.trans nhash, hashoff'.trans hashoff, ?_⟩
        -- on its own the process finds the same file before and after
        have step (only : Alone p) : σ₁ = σ.seek p .idx (σ.w.pos p .idx + 11 + e.text.length) :=
          scanned.alone only
        have here (only : Alone p) : σ.img.entryAt (σ.w.pos p .idx) = some e := by
          have := scanned.found
          rwa [step only] at this
        rcases outcome with ⟨rfl, reached⟩ | ⟨rfl, x, d, reached⟩
        · refine .inl ⟨rfl, reached.holding, reached.status, reached.boundary,
            reached.lost.trans scanned.lost, fun only => ?_⟩
          obtain ⟨untouched, skips, atEnd⟩ := reached.alone only
          rw [step only] at untouched skips atEnd
          rw [St.seek_pos] at skips
          exact ⟨⟨untouched.bytes, untouched.img, untouched.members, untouched.fresh,
            untouched.map⟩,
            skips.step (here only) blank, atEnd⟩
        · refine .inr ⟨rfl, x, d, reached.scanning, reached.found, reached.visible, reached.pos,
            reached.idxbuf, reached.datoff,
            reached.datlen, reached.ok, reached.lost.trans scanned.lost, fun only => ?_⟩
          obtain ⟨same, low, skips⟩ := reached.alone only
          rw [step only] at same low skips
          rw [St.seek_pos] at low skips
          exact ⟨by rw [same, St.seek_seek], by omega, skips.step (here only) blank⟩

omit [DecidableEq ι] in
/-- A record with a key that is not blank is bound, or it is being stored, as long as nobody can be
deleting it. -/
theorem Coherent.visible (inv : Coherent room σ) (nobody : ∀ q, ¬σ.Holds q .free .write)
    (none : σ.members .lost = [])
    {x : Nat} {e : Entry} (found : σ.img.entryAt x = some e) (visible : isBlank e.key = false) :
    σ.map e.key = some e.data ∨ ∃ q flag, σ.obj.status q = .pending (.store e.key e.data flag) := by
  obtain ⟨o, member⟩ := (inv.sorted.owned x).1 (by rw [found]; rfl)
  rcases o with place | q | _
  · rcases inv.sorted.listed member with rfl | ⟨h, real, rfl⟩
    · rw [inv.free.blank member found] at visible
      cases visible
    · by_cases writer : ∃ q, σ.Holds q (.chain h) .write
      · obtain ⟨q, held⟩ := writer
        rcases (inv.chain h real).live held member found visible with free | ⟨flag, storing⟩ | bound
        · exact absurd free (nobody q)
        · exact .inr ⟨q, flag, storing⟩
        · exact .inl bound
      · have ok := (inv.chain h real).still fun q held => writer ⟨q, held⟩
        exact .inl ((ok.bound ((inv.chain h real).hashed member found) e.data).2 ⟨x, member, e,
          found, rfl, rfl⟩)
  · obtain ⟨flag, storing⟩ := (inv.priv q).live member found visible
    exact .inr ⟨q, flag, storing⟩
  · rw [none] at member
    cases member

omit [DecidableEq ι] in
theorem Scanning.nobody (inv : Coherent room σ)
    (holding : Holding σ p [Place.free.lock .read]) (q : ι) :
    ¬σ.Holds q .free .write := by
  intro held
  have reads : σ.Holds p .free .read := (holding _).2 List.mem_cons_self
  have own := inv.exclusive reads held
  subst own
  have member := (holding _).1 held
  rw [List.mem_singleton] at member
  cases (Place.lock_inj Place.free_real Place.free_real member).2

/-- The data of the record the scan has stopped at: this is the effect of `db_nextrec`. -/
structure Delivered (σ : St ι) (p : ι) (x : Nat) (e : Entry) (data : Bytes) (σ' : St ι) : Prop where
  holding : Holding σ' p [Place.free.lock .read]
  status : σ.members .lost = [] → σ'.obj.status p = .done .nextrec (.record (some (e.key, data)))
  boundary : Boundary σ'.img (σ'.w.pos p .idx)
  lost : σ'.members .lost = σ.members .lost
  pos : σ'.w.pos p .idx = σ.w.pos p .idx
  alone : Alone p → Untouched σ σ' ∧ data = e.data

theorem triple_nextrecFound {x : Nat} {e : Entry} {σ₀ : St ι}
    (reached : ReachedRecord σ₀ p x e db σ) :
    Triple (discipline room env) p E σ (nextrecFound true) db fun record db' σ' =>
      db'.nhash = db.nhash ∧ db'.hashoff = db.hashoff ∧ ∃ data, record = some (e.key, data) ∧
        Delivered σ p x e data σ' := by
  unfold nextrecFound
  rw [if_pos rfl]
  refine .get ?_
  obtain ⟨rest, idxbuf⟩ := reached.idxbuf
  have isKey : cstr db.idxbuf = e.key := by rw [idxbuf, cstr_append_zero reached.ok.keyClean]
  rw [isKey]
  have pos (τ : St ι) (relied : Rely p (σ.seek p .dat e.doff) τ) {offset : Nat} :
      (τ.seek p .dat offset).w.pos p .idx = σ.w.pos p .idx := by
    rw [St.seek_pos_other τ p (show File.idx ≠ .dat by decide), relied.pos,
      St.seek_pos_other σ p (show File.idx ≠ .dat by decide)]
  -- what is read, and where it comes from
  have record (τ : St ι) (relied : Rely p (σ.seek p .dat e.doff) τ) (inv : Coherent room τ) :
      ∃ e', τ.img.entryAt x = some e' ∧ e'.key = e.key ∧ e'.data.length = e.data.length ∧
        NulFree e'.data ∧
        readAt (τ.w.bytes .dat) ((σ.seek p .dat e.doff).w.pos p .dat) e.dlen = e'.data ++
          [newline] := by
    obtain ⟨e', found, key, doff, length⟩ :=
      relied.lasting ⟨.read, (reached.scanning.holding _).2 List.mem_cons_self⟩ x e
      reached.found reached.visible
    have has := inv.stored.there (a := .entry x)
      (show τ.extent (.entry x) = some (e'.doff, e'.data) by simp [St.extent, found])
    have bytes := has.read
    rw [doff, List.length_append, length] at bytes
    exact ⟨e', found, key, length,
      (inv.img.entry found).dataClean, by rw [St.seek_pos]; exact bytes⟩
  refine .bind (M := fun data db' σ' => db'.nhash = db.nhash ∧ db'.hashoff = db.hashoff ∧
    Delivered σ p x e data σ') (.get ?_) ?_
  · rw [reached.datoff, reached.datlen]
    refine .bind (triple_seek .dat e.doff .readdatLseek) ?_
    rintro - _ _ ⟨-, rfl, rfl⟩
    refine .bind (triple_readEffect
      (fun bytes => if σ.members .lost =
        [] then some (.record (some (e.key, bytes.dropLast))) else none)
      reached.scanning.unheld reached.scanning.status ?_) ?_
    · intro τ relied inv r isRes
      obtain ⟨e', found, key, -, -, bytes⟩ := record τ relied inv
      rw [bytes, List.dropLast_concat] at isRes
      split at isRes
      case isTrue none =>
        cases isRes
        refine ⟨rfl, _, rfl, ?_⟩
        rintro k d same
        cases same
        have holding : Holding τ p [Place.free.lock .read] :=
          fun l => (relied.locks l).trans (reached.scanning.holding l)
        have := inv.visible (Scanning.nobody inv holding) (relied.lost.members.trans none) found
          (by rw [key]; exact reached.visible)
        rwa [key] at this
      case isFalse => cases isRes
    · rintro bytes _ _ ⟨rfl, τ, relied, inv, isBytes, rfl⟩
      obtain ⟨e', found, key, length, clean, value⟩ := record τ relied inv
      rw [value] at isBytes
      rw [isBytes, if_neg (show ¬(e'.data ++ [newline]).length ≠
        e.dlen by simp [Entry.dlen, length]),
        if_neg (show ¬(e'.data ++ [newline]).getLast? ≠ some newline by simp)]
      refine .modifyThen (.pure ⟨rfl, rfl, ?_, fun none => ?_, ?_, ?_, ?_, fun only => ?_⟩)
      · intro l
        rw [St.answer_w]
        exact (relied.locks l).trans (reached.scanning.holding l)
      · rw [St.answer_status, if_pos none, List.dropLast_concat, cstr_append_zero clean []]
      · rw [St.answer_img, St.answer_w, pos τ relied]
        exact reached.scanning.boundary.later relied.grows
      · rw [St.answer_members]
        exact relied.lost.members
      · rw [St.answer_w, pos τ relied]
      · obtain rfl := relied.alone only
        have same : e' = e := by
          have := reached.found
          rw [show σ.img.entryAt x = some e' from found] at this
          exact Option.some.inj this
        rw [List.dropLast_concat, cstr_append_zero clean [], same]
        refine ⟨?_, rfl⟩
        split <;> exact ⟨rfl, rfl, rfl, rfl, rfl⟩
  · rintro data _ σ' ⟨nhash, hashoff, delivered⟩
    exact .modifyThen (.pure ⟨nhash, hashoff, data, rfl, delivered⟩)

/-- `db_nextrec` has answered `record`. -/
structure Scanned (σ : St ι) (p : ι) (record : Option (Bytes × Bytes)) (db : DB)
    (σ' : St ι) : Prop where
  nhash : db.nhash = nhashDef
  hashoff : db.hashoff = hashOff
  holding : Holding σ' p []
  status : σ.members .lost = [] → σ'.obj.status p = .done .nextrec (.record record)
  boundary : Boundary σ'.img (σ'.w.pos p .idx)
  lost : σ'.members .lost = σ.members .lost
  alone : Alone p → Untouched σ σ' ∧ NextIs σ.img (σ.w.pos p .idx) record (σ'.w.pos p .idx)

/-- The scan is over, with the free list still locked. -/
structure Scanner (σ : St ι) (p : ι) (record : Option (Bytes × Bytes)) (σ' : St ι) : Prop where
  holding : Holding σ' p [Place.free.lock .read]
  status : σ.members .lost = [] → σ'.obj.status p = .done .nextrec (.record record)
  boundary : Boundary σ'.img (σ'.w.pos p .idx)
  lost : σ'.members .lost = σ.members .lost
  alone : Alone p → Untouched σ σ' ∧ NextIs σ.img (σ.w.pos p .idx) record (σ'.w.pos p .idx)

theorem triple_nextrecRecord {σ₀ : St ι} {found : Bool}
    (outcome : (found = false ∧ ReachedEnd σ₀ p σ) ∨
    (found = true ∧ ∃ x e, ReachedRecord σ₀ p x e db σ)) :
    Triple (discipline room env) p E σ (nextrecFound found) db fun record db' σ' =>
      db'.nhash = db.nhash ∧ db'.hashoff = db.hashoff ∧ Scanner σ₀ p record σ' := by
  rcases outcome with ⟨rfl, reached⟩ | ⟨rfl, x, e, reached⟩
  · refine .pure ⟨rfl, rfl, reached.holding, fun _ => reached.status, reached.boundary,
      reached.lost, fun only => ?_⟩
    obtain ⟨untouched, skips, pos⟩ := reached.alone only
    refine ⟨untouched, .inr ⟨rfl, pos, fun y d low here => skips y d low ?_ here⟩⟩
    have := Image.entryAt_bound here
    omega
  · refine (triple_nextrecFound reached).weaken ?_
    rintro _ db' σ' ⟨nhash, hashoff, data, rfl, delivered⟩
    refine ⟨nhash, hashoff, delivered.holding,
      fun none => delivered.status (reached.lost.trans none),
      delivered.boundary, delivered.lost.trans reached.lost, fun only => ?_⟩
    obtain ⟨untouched, rfl⟩ := delivered.alone only
    obtain ⟨same, low, skips⟩ := reached.alone only
    have found := reached.found
    rw [same] at untouched found
    refine ⟨⟨untouched.bytes, untouched.img, untouched.members, untouched.fresh, untouched.map⟩,
      .inl ⟨x, e, found,
      reached.visible, low, skips, rfl, ?_⟩⟩
    rw [delivered.pos, reached.pos]

theorem triple_nextrec (ready : Ready σ p .nextrec) (boundary : Boundary σ.img (σ.w.pos p .idx))
    (nhash : db.nhash = nhashDef) (hashoff : db.hashoff = hashOff) :
    Triple (discipline room env) p E σ dbNextrec db fun record db' σ' =>
      Scanned σ p record db' σ' := by
  refine .bind (show Triple (discipline room env) p E σ
    (readwLock .idx freeOff 1 .nextrecLock) _ _ from
    triple_lock (show File.idx = Place.free.file ∧
      Range.ofLen freeOff 1 = Place.free.range from ⟨rfl, rfl⟩) trivial
      ready.holding (by simp)) ?_
  rintro - _ σ₁ ⟨rfl, carries, holding, -, -, alone⟩
  have scanning : Scanning σ₁ p := by
    refine ⟨holding, carries.status.trans ready.status, ?_⟩
    rw [carries.pos]
    exact boundary.later carries.grows
  refine .bind (triple_nextrecLoop scanning (Nat.le_refl _)) ?_
  rintro found db₁ σ₂ ⟨nhash₁, hashoff₁, outcome⟩
  refine .bind (triple_nextrecRecord outcome) ?_
  rintro record db₂ σ₃ ⟨nhash₂, hashoff₂, scanner⟩
  refine .bind (triple_unlock
    (show File.idx = Place.free.file ∧ Range.ofLen freeOff 1 = Place.free.range from ⟨rfl, rfl⟩)
      trivial (by simp)
    scanner.holding (by simp) (by simp) (by simp)) ?_
  rintro - _ σ₄ ⟨rfl, carries₄, holding₄, -, alone₄⟩
  have lost : σ₁.members .lost = σ.members .lost := carries.lost.members
  refine .pure ⟨nhash₂.trans (nhash₁.trans nhash), hashoff₂.trans (hashoff₁.trans hashoff),
    holding₄, fun none => ?_, ?_, ?_,
    fun only => ?_⟩
  · rw [carries₄.status]
    exact scanner.status (lost.trans none)
  · rw [carries₄.pos]
    exact scanner.boundary.later carries₄.grows
  · exact carries₄.lost.members.trans (scanner.lost.trans lost)
  · obtain ⟨untouched, next⟩ := scanner.alone only
    rw [alone only] at untouched next
    rw [alone₄ only]
    exact ⟨⟨untouched.bytes, untouched.img, untouched.members, untouched.fresh,
      untouched.map⟩, next⟩

/-! ## Rewinding -/

/-- `db_rewind` puts the offset behind the table; this is its effect. -/
structure Rewound (σ : St ι) (p : ι) (db : DB) (σ' : St ι) : Prop where
  nhash : db.nhash = nhashDef
  hashoff : db.hashoff = hashOff
  finished : Finished σ' p .rewind .rewound
  pos : σ'.w.pos p .idx = recordsOff
  lost : σ'.members .lost = σ.members .lost
  alone : Alone p → Untouched σ σ'

theorem triple_rewind (ready : Ready σ p .rewind) (nhash : db.nhash = nhashDef)
    (hashoff : db.hashoff = hashOff) :
    Triple (discipline room env) p E σ dbRewind db fun _ db' σ' => Rewound σ p db' σ' := by
  refine .get ?_
  rw [nhash]
  have unheld (τ : St ι) (relied : Rely p σ τ) (h : Nat) (_ : h < nhashDef) :
      ¬τ.Holds p (.chain h) .write := by
    intro held
    have := (ready.holding _).1 ((relied.locks _).1 held)
    cases this
  refine .bind (M := fun _ db' σ' => db' = db ∧ ∃ τ, Rely p σ τ ∧
    σ' = (τ.seek p .idx recordsOff).answer p .rewind (some .rewound))
      (.bind (M := fun r db' σ' => r = some recordsOff ∧
    db' = db ∧ ∃ τ, Rely p σ τ ∧ σ' = (τ.seek p .idx recordsOff).answer p .rewind (some .rewound))
      (.call ?_) ?_) ?_
  · rintro τ relied inv - answer w answers
    cases answers
    have kept : Guar p τ ((τ.seek p .idx recordsOff).answer p .rewind (some .rewound)) := by
      refine St.answer_guar (relied.status.trans ready.status) ?_
      rintro r same
      cases same
      exact ⟨rfl, rfl⟩
    exact ⟨_, _, rfl, kept, (inv.seek p .idx _).answer (unheld τ relied) .rewind _, Rely.refl p _,
      rfl, rfl, τ, relied, rfl⟩
  · rintro _ _ σ' ⟨rfl, rfl, τ, relied, rfl⟩
    exact .pure ⟨rfl, τ, relied, rfl⟩
  · rintro _ _ σ' ⟨rfl, τ, relied, rfl⟩
    refine .modified ⟨nhash, hashoff, ⟨?_, St.answer_status ..⟩, ?_, ?_, fun only => ?_⟩
    · intro l
      rw [St.answer_w]
      exact (relied.locks l).trans (ready.holding l)
    · rw [St.answer_w, St.seek_pos]
    · rw [St.answer_members]
      exact relied.lost.members
    · rw [relied.alone only]
      exact ⟨rfl, rfl, rfl, rfl, rfl⟩

end Apue.Db
