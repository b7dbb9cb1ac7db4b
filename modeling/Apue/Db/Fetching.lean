import Apue.Db.Readback

/-! # Fetching during a scan

The place where a scan goes on is nothing but the file offset of the index file, so `db_fetch` moves
it: to the end of the record it reads last or, if the chain is empty, into the table of chain
pointers.
-/

namespace Apue.Db

open Apue.Base St

variable {d : Layout} {n : Nat} {w w' : World Unit File} {db db' : DB} {fetched : List (Op × Res)}

/-- Calls of `db_nextrec`. -/
def Nextrecs (_ : World Unit File) (op : Op) : Prop := op = .nextrec

instance (w : World Unit File) (op : Op) : Decidable (Nextrecs w op) :=
  inferInstanceAs (Decidable (op = .nextrec))

/-- Calls of `db_fetch`, for keys that are there or are not. -/
def Fetches (_ : World Unit File) : Op → Prop
  | .fetch key => NulFree key
  | _ => False

instance (w : World Unit File) : (op : Op) → Decidable (Fetches w op)
  | .fetch key => inferInstanceAs (Decidable (NulFree key))
  | .store .. => inferInstanceAs (Decidable False)
  | .delete _ => inferInstanceAs (Decidable False)
  | .rewind => inferInstanceAs (Decidable False)
  | .nextrec => inferInstanceAs (Decidable False)
  | .open _ => inferInstanceAs (Decidable False)

theorem Session.nextrecs {calls : List (Op × Res)} {db₀ : DB} {w₀ : World Unit File}
    (start : Usable w₀ db₀ d)
    (boundary : Boundary d.img (w₀.pos () .idx)) (session : Session Nextrecs db₀ w₀ calls db w) :
    Usable w db d ∧ w.bytes = w₀.bytes ∧ Boundary d.img (w.pos () .idx) := by
  induction session with
  | start => exact ⟨start, rfl, boundary⟩
  | call earlier may returns inductionHypothesis =>
    obtain ⟨usable, bytes, boundary'⟩ := inductionHypothesis
    cases may
    obtain ⟨record, db', w', runs, usable', bytes', -, boundary''⟩ := usable.nextrec boundary'
    obtain ⟨same, rfl⟩ := returns.deterministic (Exec.bind runs (.ret _ _))
    cases same
    exact ⟨usable', bytes'.trans bytes, boundary''⟩

/-- The index record `db_fetch` reads last: the one with the key or, where there is none, the last
of the chain. -/
def Layout.lastRead (d : Layout) (key : Bytes) : Option Nat :=
  ((d.chain (dbHash nhashDef key)).find? fun x => (d.img.entryAt x).map Entry.key = some key).or
    (d.chain (dbHash nhashDef key)).getLast?

theorem Visits.last {op : Op} {key : Bytes} {visited : List Nat}
    (rep : DbRep (w.bytes .idx) (w.bytes .dat) d)
    (visits : Visits (Usable.start d w op) key visited) : visited.getLast? = d.lastRead key := by
  have real := dbHash_lt key
  have chain : (Usable.start d w op).chain (dbHash nhashDef key) = d.chain (dbHash nhashDef key) :=
    Layout.members_chain (ι := Unit) real
  rw [Visits, chain] at visits
  rw [Layout.lastRead]
  cases visits with
  | inl visits =>
    obtain ⟨before, x, e, after, split, rfl, found, same⟩ := visits
    have inChain {y : Nat} (member : y ∈ before ++ x :: after) :
      y ∈ d.chain (dbHash nhashDef key) := split ▸ member
    have nodup : (before ++ x :: after).Nodup := by
      have := rep.members_nodup (ι := Unit) (.at (.chain (dbHash nhashDef key)))
      rw [Layout.members_chain real, split] at this
      exact this
    -- no record before it has the key
    have none : before.find? (fun y => decide ((d.img.entryAt y).map Entry.key = some key)) =
        none := by
      rw [List.find?_eq_none]
      intro y member hasKey
      obtain ⟨e', found', same'⟩ := Option.map_eq_some_iff.1 (of_decide_eq_true hasKey)
      have equal := rep.distinct _ real y (inChain (List.mem_append_left _ member)) x
        (inChain (by simp)) e' e found' found
        (same'.trans same.symm)
      subst equal
      exact (List.nodup_append.1 nodup).2.2 y member y List.mem_cons_self rfl
    have here : (d.img.entryAt x).map Entry.key = some key := by
      rw [show d.img.entryAt x = some e from found]
      simp [same]
    have first : (x :: after).find? (fun y => decide ((d.img.entryAt y).map Entry.key = some key)) =
        some x := by
      rw [List.find?_cons]
      simp only [here, decide_true]
    rw [split, List.find?_append, none, first]
    simp
  | inr visits =>
    obtain ⟨rfl, absent⟩ := visits
    have none : (d.chain (dbHash nhashDef key)).find?
        (fun y => decide ((d.img.entryAt y).map Entry.key = some key)) = none := by
      rw [List.find?_eq_none]
      intro y member hasKey
      obtain ⟨e, found, same⟩ := Option.map_eq_some_iff.1 (of_decide_eq_true hasKey)
      exact absent y member e found same
    rw [none]
    rfl

/-- Where the last of the calls leaves the file offset: after the record it reads last, or after the
chain pointer. -/
def fetchedAt (d : Layout) (n : Nat) (fetched : List (Op × Res)) : Nat :=
  match fetched.getLast? with
  | some (.fetch key, _) =>
    ((d.lastRead key).map d.img.recEnd).getD (chainOff (dbHash nhashDef key) + ptrSz)
  | _ => n

theorem Session.fetches {calls : List (Op × Res)} {db₀ : DB} {w₀ : World Unit File}
    (start : Usable w₀ db₀ d)
    (session : Session Fetches db₀ w₀ calls db w) :
    Usable w db d ∧ w.pos () .idx = fetchedAt d (w₀.pos () .idx) calls := by
  induction session with
  | start => exact ⟨start, rfl⟩
  | @call calls db₁ db₂ w₁ w₂ op res earlier may returns inductionHypothesis =>
    obtain ⟨usable, -⟩ := inductionHypothesis
    cases op with
    | fetch key =>
      obtain ⟨db', w', runs, usable', -, visited, visits, pos⟩ := usable.fetch may
      obtain ⟨same, rfl⟩ := returns.deterministic (Exec.bind runs (.ret _ _))
      cases same
      refine ⟨usable', ?_⟩
      rw [pos, walkEnd, visits.last usable.rep, fetchedAt, List.getLast?_concat]
    | _ => exact may.elim

/-- The calls leave the scan where it was: there is none, or the last one reads an index record,
with no undeleted record between its end and the place where the scan goes on. -/
def Undisturbed (d : Layout) (n : Nat) (fetched : List (Op × Res)) : Prop :=
  ∀ key res, fetched.getLast? = some (.fetch key, res) → ∃ x, d.lastRead key = some x ∧
    ∀ y e, d.img.entryAt y = some e → isBlank e.key = false → (n ≤ y ↔ d.img.recEnd x ≤ y)

/-- The last of the calls reads an index record. -/
def ReadsRecord (d : Layout) (fetched : List (Op × Res)) : Prop :=
  ∀ key res, fetched.getLast? = some (.fetch key, res) → (d.lastRead key).isSome

theorem undisturbed_iff (reads : ReadsRecord d fetched) :
    Undisturbed d n fetched ↔ d.img.scan n = d.img.scan (fetchedAt d n fetched) := by
  rw [Image.scan_eq_iff]
  constructor
  · intro undisturbed
    unfold fetchedAt
    split
    case h_1 key res last =>
      obtain ⟨x, isLast, agree⟩ := undisturbed key res last
      rw [isLast]
      exact agree
    case h_2 => simp
  · intro agree key res last
    obtain ⟨x, isLast⟩ := Option.isSome_iff_exists.1 (reads key res last)
    rw [fetchedAt, last] at agree
    dsimp only at agree
    rw [isLast] at agree
    exact ⟨x, isLast, agree⟩

/-- After such calls the scan goes on at the start of a record. -/
theorem boundary_fetchedAt (rep : DbRep (w.bytes .idx) (w.bytes .dat) d)
    (boundary : Boundary d.img n)
    (reads : ReadsRecord d fetched) : Boundary d.img (fetchedAt d n fetched) := by
  unfold fetchedAt
  split
  case h_1 key res last =>
    obtain ⟨x, isLast⟩ := Option.isSome_iff_exists.1 (reads key res last)
    have member : x ∈ d.chain (dbHash nhashDef key) := by
      rw [Layout.lastRead, Option.or_eq_some_iff] at isLast
      cases isLast with
      | inl found => exact List.mem_of_find?_eq_some found
      | inr last => exact List.mem_of_getLast? last.2
    obtain ⟨e, found⟩ := rep.record (dbHash_lt key) member
    rw [isLast]
    exact .inr ⟨x, e, found, Image.recEnd_of found⟩
  case h_2 => exact boundary

/-- The two scans return the same records. -/
def SameScan (db : DB) (w : World Unit File) (db' : DB) (w' : World Unit File) : Prop :=
  ∃ records db₁ w₁ db₂ w₂, Scan db w records db₁ w₁ ∧ Scan db' w' records db₂ w₂

/-- In a scan of any database reached from a new one by calls that store no key with a separator,
calls of `db_fetch` that leave the scan where it was do not change what the rest of it returns; and
as long as the last of them reads an index record, only such calls do not. -/
theorem fetch_keeps_scan {calls scanned : List (Op × Res)} {db₀ db₁ db₂ db₃ : DB}
    {w₀ w₁ w₂ w₃ : World Unit File}
    (unlocked : w₀.locks = [])
    (opens : Exec soloKernel (dbOpen ⟨true, true⟩ db₀) w₀ (.returned (true, db₁)) w₁)
    (session : Session Plain db₁ w₁ calls db₂ w₂) (legible : Legible calls)
    (rewinds : Exec soloKernel (dbRewind db₂) w₂ (.returned ((), db₃)) w₃)
    (scanning : Session Nextrecs db₃ w₃ scanned db w)
    (fetching : Session Fetches db w fetched db' w') (rep : DbRep (w.bytes .idx) (w.bytes .dat) d) :
    (Undisturbed d (w.pos () .idx) fetched → SameScan db w db' w') ∧
      (ReadsRecord d fetched → SameScan db w db' w' → Undisturbed d (w.pos () .idx) fetched) := by
  obtain ⟨start, -, -⟩ := Usable.of_open unlocked opens
  obtain ⟨d₂, usable₂⟩ := session.plain start legible
  obtain ⟨db₃', w₃', runs, usable₃, -, pos₃⟩ := usable₂.rewind
  obtain ⟨same, rfl⟩ := rewinds.deterministic runs
  cases same
  -- the layout given is one of the same files
  obtain ⟨usable, boundary⟩ : Usable w db d ∧ Boundary d.img (w.pos () .idx) := by
    have first : Boundary d₂.img (w₃.pos () .idx) := .inl pos₃
    obtain ⟨usableW, bytes, -⟩ := scanning.nextrecs usable₃ first
    have again : Usable w₃ db₃ d :=
      ⟨by rw [← bytes]; exact rep, usable₃.unlocked, usable₃.nhash, usable₃.hashoff⟩
    obtain ⟨usable, -, boundary⟩ := scanning.nextrecs again (.inl pos₃)
    exact ⟨usable, boundary⟩
  obtain ⟨usable', pos'⟩ := fetching.fetches usable
  obtain ⟨dbR, wR, without, -⟩ := usable.scan boundary
  have scans (reads : ReadsRecord d fetched) :
      ∃ dbS wS, Scan db' w' (d.img.scan (fetchedAt d (w.pos () .idx) fetched)) dbS wS := by
    have boundary' := boundary_fetchedAt usable.rep boundary reads
    rw [← pos'] at boundary' ⊢
    obtain ⟨dbS, wS, scan, -⟩ := usable'.scan boundary'
    exact ⟨dbS, wS, scan⟩
  constructor
  · intro undisturbed
    have reads : ReadsRecord d fetched := by
      intro key res last
      obtain ⟨x, isLast, -⟩ := undisturbed key res last
      simp [isLast]
    obtain ⟨dbS, wS, scan⟩ := scans reads
    rw [← (undisturbed_iff reads).1 undisturbed] at scan
    exact ⟨_, dbR, wR, dbS, wS, without, scan⟩
  · intro reads ⟨records, dbA, wA, dbB, wB, first, second⟩
    obtain ⟨dbS, wS, scan⟩ := scans reads
    rw [undisturbed_iff reads]
    exact (without.deterministic first).1.trans (scan.deterministic second).1.symm

/-- A key that is found is found in a record. -/
theorem lastRead_of_bound {key data : Bytes} (rep : DbRep (w.bytes .idx) (w.bytes .dat) d)
    (bound : d.map key = some data) :
    (d.lastRead key).isSome := by
  obtain ⟨x, member, e, found, same, -⟩ := rep.map_iff.1 bound
  have hasKey : (d.img.entryAt x).map Entry.key = some key := by
    rw [found, Option.map_some, same]
  rw [Layout.lastRead, Option.isSome_or, Bool.or_eq_true]
  exact .inl (List.find?_isSome.2 ⟨x, member, decide_eq_true hasKey⟩)

/-- The scan has returned the first of three records when the third and then the first are fetched;
it goes on with the second. -/
theorem fetch_keeps_scan_first : ∃ db w db' w' db₁ w₁ fetched, Session Fetches db w fetched db' w' ∧
    fetched = [(.fetch [99], .data (some [122])), (.fetch [97], .data (some [120]))] ∧
      SameScan db w db' w' ∧
      Exec soloKernel (dbNextrec db') w' (.returned (some ([98], [121]), db₁)) w₁ := by
  have ran : (((dbOpen ⟨true, true⟩).returns soloKernel 10000 ({}, .absent)).bind fun (ok, s₁) =>
      (sessionRun Plain [.store [97] [120] .insert, .store [98] [121] .insert,
        .store [99] [122] .insert] ([], s₁)).bind
        fun (calls, s₂) => (dbRewind.returns soloKernel 10000 s₂).bind fun (_, s₃) =>
      (sessionRun Nextrecs [.nextrec] ([], s₃)).bind fun (_, s) =>
      (sessionRun Fetches [.fetch [99], .fetch [97]] ([], s)).bind fun (fetched, s') =>
      ((dbFetch [97]).returns soloKernel 10000 s).bind fun (data, _) =>
      (dbNextrec.returns soloKernel 10000 s').map fun (record, _) =>
        decide (ok = true ∧
          calls = [(.store [97] [120] .insert, .rc 0), (.store [98] [121] .insert, .rc 0),
          (.store [99] [122] .insert, .rc 0)] ∧
            fetched = [(.fetch [99], .data (some [122])), (.fetch [97], .data (some [120]))] ∧
          s'.2.pos () .idx = s.2.pos () .idx ∧ data = some [120] ∧ record = some ([98], [121]))) =
            some true := by
    decide +kernel
  simp only [Option.bind_eq_some_iff, Option.map_eq_some_iff] at ran
  obtain ⟨⟨ok, s₁⟩, opens, ⟨calls, s₂⟩, session, ⟨_, s₃⟩, rewinds, ⟨scanned, s⟩, scanning,
    ⟨fetched, s'⟩, fetching,
    ⟨data, _⟩, finds, ⟨record, s''⟩, next, same⟩ := ran
  obtain ⟨rfl, rfl, rfl, still, rfl, rfl⟩ := of_decide_eq_true same
  have opened := Code.returns_sound opens
  have called := sessionRun_sound .start session
  have rewound := Code.returns_sound rewinds
  have scans := sessionRun_sound .start scanning
  have fetches := sessionRun_sound .start fetching
  have legible : Legible [(.store [97] [120] .insert, .rc 0), (.store [98] [121] .insert, .rc 0),
      (.store [99] [122] .insert, .rc 0)] := by
    intro key data flag member
    obtain ⟨rfl, -⟩ | ⟨rfl, -⟩ | ⟨rfl, -⟩ := by simpa using member
    · decide
    · decide
    · decide
  -- a layout of the files, and what the calls do to the offset in it
  obtain ⟨start, -, -⟩ := Usable.of_open rfl opened
  obtain ⟨d, usable₂⟩ := called.plain start legible
  obtain ⟨_, _, rewound', usable₃, -, pos⟩ := usable₂.rewind
  obtain ⟨isDb, isW⟩ := rewound'.deterministic rewound
  cases isDb
  cases isW
  obtain ⟨usable, -, -⟩ := scans.nextrecs usable₃ (.inl pos)
  obtain ⟨-, moved⟩ := fetches.fetches usable
  have bound : d.map [97] = some [120] := usable.map_of_fetch (by decide) (Code.returns_sound finds)
  have reads : ReadsRecord d [(.fetch [99], .data (some [122])),
      (.fetch [97], .data (some [120]))] := by
    intro key res last
    cases last
    exact lastRead_of_bound usable.rep bound
  have undisturbed := (undisturbed_iff (n := s.2.pos () .idx) reads).2 (by rw [← moved, still])
  exact ⟨s.1, s.2, s'.1, s'.2, _, _, _, fetches, rfl,
    (fetch_keeps_scan rfl opened called legible rewound scans fetches usable.rep).1 undisturbed,
      Code.returns_sound next⟩

/-- Two records are stored and the scan has returned the first; a fetch of the second makes it skip
the second. -/
theorem fetch_skips_record : ∃ (calls scanned fetched : List (Op × Res)) (db₁ db₂ db₃ db db' : DB)
    (w₁ w₂ w₃ w w' : World Unit File), Exec soloKernel (dbOpen ⟨true, true⟩ {}) .absent
    (.returned (true, db₁)) w₁ ∧
      Session Plain db₁ w₁ calls db₂ w₂ ∧ Legible calls ∧
        Exec soloKernel (dbRewind db₂) w₂ (.returned ((), db₃)) w₃ ∧
      Session Nextrecs db₃ w₃ scanned db w ∧ Session Fetches db w fetched db' w' ∧
        ¬SameScan db w db' w' := by
  have ran : (((dbOpen ⟨true, true⟩).returns soloKernel 10000 ({}, .absent)).bind fun (ok, s₁) =>
      (sessionRun Plain [.store [97] [120] .insert, .store [98] [121] .insert] ([], s₁)).bind
        fun (calls, s₂) =>
      (dbRewind.returns soloKernel 10000 s₂).bind fun (_, s₃) =>
        (sessionRun Nextrecs [.nextrec] ([], s₃)).bind fun (_, s) =>
      (sessionRun Fetches [.fetch [98]] ([], s)).bind fun (_, s') =>
        (dbNextrec.returns soloKernel 10000 s).bind fun (record, _) =>
      (dbNextrec.returns soloKernel 10000 s').map fun (record', _) =>
        decide (ok = true ∧
          calls = [(.store [97] [120] .insert, .rc 0), (.store [98] [121] .insert, .rc 0)] ∧
          record = some ([98], [121]) ∧ record' = none)) = some true := by
    decide +kernel
  simp only [Option.bind_eq_some_iff, Option.map_eq_some_iff] at ran
  obtain ⟨⟨ok, s₁⟩, opens, ⟨calls, s₂⟩, session, ⟨_, s₃⟩, rewinds, ⟨scanned, s⟩, scanning,
    ⟨fetched, s'⟩, fetching,
    ⟨record, _⟩, without, ⟨record', _⟩, with', same⟩ := ran
  obtain ⟨rfl, rfl, rfl, rfl⟩ := of_decide_eq_true same
  have legible : Legible [(.store [97] [120] .insert, .rc 0),
      (.store [98] [121] .insert, .rc 0)] := by
    intro key data flag member
    obtain ⟨rfl, -⟩ | ⟨rfl, -⟩ := by simpa using member
    · decide
    · decide
  refine ⟨_, scanned, fetched, s₁.1, s₂.1, s₃.1, s.1, s'.1, s₁.2, s₂.2, s₃.2, s.2, s'.2,
    Code.returns_sound opens,
    sessionRun_sound .start session, legible, Code.returns_sound rewinds,
      sessionRun_sound .start scanning,
    sessionRun_sound .start fetching, ?_⟩
  rintro ⟨records, dbA, wA, dbB, wB, first, second⟩
  have absent := Code.returns_sound with'
  have there := Code.returns_sound without
  cases second with
  | finish last =>
    cases first with
    | finish last' => cases (last'.deterministic there).1
  | record first' rest => cases (first'.deterministic absent).1

end Apue.Db
