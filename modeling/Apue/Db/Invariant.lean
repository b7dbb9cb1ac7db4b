import Apue.Db.Session

/-! # The files in every reached state

Whatever one process does with a new database, scans included, the two files satisfy the
representation invariant between its calls, with no record outside the lists; also after a scan that
aborts, which reads only.  The walks along the lists therefore end.
-/

namespace Apue.Db

open Apue.Base St

variable {d : Layout} {w w' : World Unit File} {db db' : DB}

/-- The calls considered, and scans in any order with them. -/
def Ordinary (w : World Unit File) : Op → Prop
  | .rewind => True
  | .nextrec => True
  | op => Admits w op

instance (w : World Unit File) : (op : Op) → Decidable (Ordinary w op)
  | .rewind => inferInstanceAs (Decidable True)
  | .nextrec => inferInstanceAs (Decidable True)
  | .fetch key => inferInstanceAs (Decidable (Admits w (.fetch key)))
  | .store key data flag => inferInstanceAs (Decidable (Admits w (.store key data flag)))
  | .delete key => inferInstanceAs (Decidable (Admits w (.delete key)))
  | .open oflag => inferInstanceAs (Decidable (Admits w (.open oflag)))

/-- The walk along the chain of the key ends, and the walk along the free list that `db_store` makes
after it. -/
structure Walks (db : DB) (w : World Unit File) (key : Bytes) : Prop where
  chain : ∀ writelock, ∃ result w', Exec soloKernel (dbFindAndLock key writelock db) w
    (.returned result) w'
  free : ∀ keylen datlen, ∃ result w',
    Exec soloKernel ((dbFindAndLock key true >>= fun _ => dbFindfree keylen datlen) db) w
      (.returned result) w'

theorem Usable.walks (usable : Usable w db d) {key : Bytes} (clean : NulFree key) :
    Walks db w key := by
  have ready := usable.ready (.fetch key)
  have coherent := usable.coherent (Nat.le_refl _) (.fetch key)
  refine ⟨fun writelock => ?_, fun keylen datlen => ?_⟩
  · obtain ⟨found, db', τ, runs, -⟩ :=
      returns_alone (triple_findAndLock clean writelock ready usable.nhash usable.hashoff) coherent
    exact ⟨(found, db'), τ.w, runs⟩
  · have triple : Triple (discipline d.img.size anyCall)
        () (fun _ _ => False) (start d w (.fetch key))
        (dbFindAndLock key true >>= fun _ => dbFindfree keylen datlen) db fun _ _ _ => True := by
      refine .bind (triple_findAndLock clean true ready usable.nhash usable.hashoff) ?_
      rintro found db' σ ⟨onChain, locked, -⟩
      refine (triple_findfree onChain locked).weaken ?_
      simp
    obtain ⟨free, db', τ, runs, -⟩ := returns_alone triple coherent
    exact ⟨(free, db'), τ.w, runs⟩

/-- One call, however it ends: the files are a database, and after a return the handle is good. -/
theorem Usable.ordinary (usable : Usable w db d) {op : Op} (ordinary : Ordinary w op)
    {outcome : Outcome Err (Res × DB)}
    (runs : Exec soloKernel (dbCall op db) w outcome w') :
    ∃ d', DbRep (w'.bytes .idx) (w'.bytes .dat) d' ∧ d'.lost = d.lost ∧
      ∀ res db', outcome = .returned (res, db') → Usable w' db' d' := by
  have returned {res : Res} {db₁ : DB} {w₁ : World Unit File} {d₁ : Layout}
      (expected : Exec soloKernel (dbCall op db) w (.returned (res, db₁)) w₁)
        (usable₁ : Usable w₁ db₁ d₁)
      (lost : d₁.lost = d.lost) : ∃ d', DbRep (w'.bytes .idx) (w'.bytes .dat) d' ∧
        d'.lost = d.lost ∧
        ∀ res db', outcome = .returned (res, db') → Usable w' db' d' := by
    obtain ⟨rfl, rfl⟩ := runs.deterministic expected
    refine ⟨d₁, usable₁.rep, lost, fun res' db' same => ?_⟩
    cases same
    exact usable₁
  have called (admits : Admits w op) : ∃ d', DbRep (w'.bytes .idx) (w'.bytes .dat) d' ∧
      d'.lost = d.lost ∧
      ∀ res db', outcome = .returned (res, db') → Usable w' db' d' := by
    obtain ⟨res, db₁, w₁, d₁, expected, usable₁, lost, -⟩ := usable.call admits
    exact returned expected usable₁ lost
  cases op with
  | fetch key => exact called ordinary
  | store key data flag => exact called ordinary
  | delete key => exact called ordinary
  | «open» oflag => exact ordinary.elim
  | rewind =>
    obtain ⟨db₁, w₁, expected, usable₁, -, -⟩ := usable.rewind
    exact returned (Exec.bind expected (.ret _ _)) usable₁ rfl
  | nextrec =>
    -- the file offset may be anywhere, so the scan may abort
    obtain ⟨error, rfl, aborts⟩ | ⟨⟨record, db₁⟩, w₁, returns, last⟩ := Exec.of_bind runs
    · obtain ⟨bytes, -⟩ := usable.nextrec_any aborts
      refine ⟨d, ?_, rfl, fun res db' same => by cases same⟩
      rw [bytes]
      exact usable.rep
    · obtain ⟨-, kept⟩ := usable.nextrec_any returns
      cases last
      refine ⟨d, (kept record db₁ rfl).rep, rfl, fun res db' same => ?_⟩
      cases same
      exact kept record db₁ rfl

theorem Session.ordinary {calls : List (Op × Res)} {db₀ : DB} {w₀ : World Unit File} {d₀ : Layout}
    (start : Usable w₀ db₀ d₀)
    (session : Session Ordinary db₀ w₀ calls db w) : ∃ d, Usable w db d ∧ d.lost = d₀.lost := by
  induction session with
  | start => exact ⟨d₀, start, rfl⟩
  | call earlier may returns inductionHypothesis =>
    obtain ⟨d, usable, lost⟩ := inductionHypothesis
    obtain ⟨d', -, lost', usable'⟩ := usable.ordinary may returns
    exact ⟨d', usable' _ _ rfl, lost'.trans lost⟩

/-- From a new database on, the files satisfy the representation invariant, with every record on a
list, in every state between two calls and after every call, and the walks along the lists end. -/
theorem files_keep_representation {calls : List (Op × Res)} {db₀ db₁ : DB} {w₀ w₁ : World Unit File}
    (unlocked : w₀.locks = [])
    (opens : Exec soloKernel (dbOpen ⟨true, true⟩ db₀) w₀ (.returned (true, db₁)) w₁)
    (session : Session Ordinary db₁ w₁ calls db w) :
    (∃ d, DbRep (w.bytes .idx) (w.bytes .dat) d ∧ d.lost = []) ∧
      (∀ op outcome w', Ordinary w op → Exec soloKernel (dbCall op db) w outcome w' →
        ∃ d, DbRep (w'.bytes .idx) (w'.bytes .dat) d ∧ d.lost = []) ∧
      ∀ key, NulFree key → Walks db w key := by
  obtain ⟨start, -, -⟩ := Usable.of_open unlocked opens
  obtain ⟨d, usable, lost⟩ := session.ordinary start
  refine ⟨⟨d, usable.rep, lost⟩, fun op outcome w' ordinary runs => ?_,
    fun key clean => usable.walks clean⟩
  obtain ⟨d', rep, lost', -⟩ := usable.ordinary ordinary runs
  exact ⟨d', rep, lost'.trans lost⟩

/-- A record is deleted and another one stored in its place. -/
theorem files_keep_representation_reused : ∃ calls db₁ w₁ db w,
    Exec soloKernel (dbOpen ⟨true, true⟩ {}) .absent (.returned (true, db₁)) w₁ ∧
      Session Ordinary db₁ w₁ calls db w ∧
      calls = [(.store [97] [120] .insert, .rc 0), (.store [98] [121] .insert, .rc 0),
        (.delete [97], .rc 0),
        (.store [99] [122] .insert, .rc 0), (.rewind, .rewound),
          (.nextrec, .record (some ([99], [122])))] ∧
      w.bytes .dat = [122, newline, 121, newline] ∧
        (∃ d, DbRep (w.bytes .idx) (w.bytes .dat) d ∧ d.lost = []) ∧
        Walks db w [97] := by
  have ran : (((dbOpen ⟨true, true⟩).returns soloKernel 10000 ({}, .absent)).bind fun (ok, s₁) =>
      (sessionRun Ordinary [.store [97] [120] .insert, .store [98] [121] .insert, .delete [97],
        .store [99] [122] .insert,
        .rewind, .nextrec] ([], s₁)).map fun (calls, s) =>
        decide (ok = true ∧
          calls = [(.store [97] [120] .insert, .rc 0), (.store [98] [121] .insert, .rc 0),
          (.delete [97], .rc 0), (.store [99] [122] .insert, .rc 0), (.rewind, .rewound),
          (.nextrec, .record (some ([99], [122])))] ∧
            s.2.bytes .dat = [122, newline, 121, newline])) = some true := by
    decide +kernel
  simp only [Option.bind_eq_some_iff, Option.map_eq_some_iff] at ran
  obtain ⟨⟨ok, s₁⟩, opens, ⟨calls, s⟩, session, same⟩ := ran
  obtain ⟨rfl, rfl, dat⟩ := of_decide_eq_true same
  have opened := Code.returns_sound opens
  have called := sessionRun_sound .start session
  obtain ⟨represents, -, walks⟩ := files_keep_representation rfl opened called
  exact ⟨_, s₁.1, s₁.2, s.1, s.2, opened, called, rfl, dat, represents, walks [97] (by decide)⟩

end Apue.Db
