import Apue.Db.Solo

/-! # Sequences of calls

One process opens a new database and calls the library through its handle, any number of times.
-/

namespace Apue.Db

open Apue.Base St

variable {d : Layout} {w w' : World Unit File} {db db' : DB}

/-! ## Opening -/

theorem exec_write {file : File} {buffer : Bytes} {error : Err} (short : buffer.length ≤ writeMax) :
    Exec soloKernel (write file buffer error db) w (.returned ((), db))
      ((w.setBytes file (writeAt (w.bytes file) (w.pos () file) buffer)).setPos () file
        (w.pos () file + buffer.length)) := by
  have answers : soloKernel (.write file buffer) w = some ((buffer.length : Nat),
      (w.setBytes file (writeAt (w.bytes file) (w.pos () file) buffer)).setPos () file
        (w.pos () file + buffer.length)) := by
    change fileKernel () (.write file buffer) w = _
    rw [fileKernel, List.take_of_length_le short]
    rfl
  refine .call answers ?_
  change Exec soloKernel
    ((if buffer.length = buffer.length then pure () else Code.abort error : DbM Unit) db) _ _ _
  rw [if_pos rfl]
  exact .ret _ _

theorem emptyTable_length : emptyTable.length = recordsOff := by
  rw [dbRep_empty.index, dbRep_empty.wellFormed.bytes_length]
  rfl

/-- A process that may open the files makes a new database of them. -/
theorem exec_dbOpen_new (unlocked : w.locks = []) (granted : ∀ file, w.denied () file = false)
    (db : DB) :
    ∃ db' w', Exec soloKernel (dbOpen ⟨true, true⟩ db) w (.returned (true, db')) w' ∧
      Usable w' db' .empty ∧
      w'.bytes .dat = [] ∧ w'.pos () .idx = recordsOff := by
  let w₁ : World Unit File :=
    { (w.setBytes .idx []).setPos () .idx 0 with present := Function.update w.present .idx true }
  let w₂ : World Unit File :=
    { (w₁.setBytes .dat []).setPos () .dat 0 with present := Function.update w₁.present .dat true }
  let w₃ : World Unit File := { w₂ with locks := w₂.locks.acquire () ⟨.idx, .write, .ofLen 0 0⟩ }
  let w₄ : World Unit File :=
    (w₃.setBytes .idx (writeAt (w₃.bytes .idx) (w₃.pos () .idx) emptyTable)).setPos () .idx
    (w₃.pos () .idx + emptyTable.length)
  let w₅ : World Unit File := { w₄ with locks := w₄.locks.release () .idx (.ofLen 0 0) }
  let w₆ : World Unit File := w₅.setPos () .idx recordsOff
  have open₁ : soloKernel (.openFile .idx true true) w = some (true, w₁) := by
    change fileKernel () (.openFile .idx true true) w = _
    rw [fileKernel, granted, if_neg (by simp)]
    rfl
  have open₂ : soloKernel (.openFile .dat true true) w₁ = some (true, w₂) := by
    change fileKernel () (.openFile .dat true true) w₁ = _
    rw [fileKernel, show w₁.denied () .dat = false from granted .dat, if_neg (by simp)]
    rfl
  have lock : soloKernel (.setlkw .idx .write (.ofLen 0 0)) w₂ = some (true, w₃) := by
    change fileKernel () (.setlkw .idx .write (.ofLen 0 0)) w₂ = _
    rw [fileKernel, if_neg (by simp [Locks.blocked])]
    rfl
  have size : soloKernel (.fstat .idx) w₃ = some ((0 : Nat), w₃) := rfl
  have unlock : soloKernel (.unlock .idx (.ofLen 0 0)) w₄ = some (true, w₅) := rfl
  have seek : soloKernel (.lseek .idx recordsOff .set) w₅ = some (some recordsOff, w₆) := rfl
  have written : Exec soloKernel
      ((write .idx emptyTable .openInitWrite >>= fun _ =>
      unLock .idx 0 0 .openUnlock : DbM Unit) {}) w₃
      (.returned ((), {})) w₅ := by
    refine Exec.bind (exec_write ?_) (.call unlock (.ret _ _))
    rw [emptyTable_length]
    decide
  have init : Exec soloKernel (dbInit {}) w₂ (.returned ((), {})) w₅ :=
    .call lock (.call size written)
  have rest : Exec soloKernel
      ((dbInit >>= fun _ => dbRewind >>= fun _ => pure true : DbM Bool) {}) w₂
      (.returned (true, { idxoff := recordsOff })) w₆ := Exec.bind init (.call seek (.ret _ _))
  have bytes : w₃.bytes .idx = [] := rfl
  have offset : w₃.pos () .idx = 0 := rfl
  refine ⟨{ idxoff := recordsOff }, w₆, .call open₁ (.call open₂ rest), ⟨?_, ?_, rfl, rfl⟩, rfl, ?_⟩
  · have index : w₆.bytes .idx = emptyTable := by
      change writeAt (w₃.bytes .idx) (w₃.pos () .idx) emptyTable = emptyTable
      rw [bytes, offset]
      exact writeAt_end [] emptyTable
    rw [index]
    exact dbRep_empty
  · change (w.locks.acquire () ⟨.idx, .write, .ofLen 0 0⟩).release () .idx (.ofLen 0 0) = []
    rw [unlocked]
    rfl
  · simp [w₆, World.setPos_pos]

/-- A file the process may not open leaves it without a handle. -/
theorem dbOpen_granted {oflag : Oflag}
    (opens : Exec soloKernel (dbOpen oflag db) w (.returned (true, db')) w') (file : File) :
    w.denied () file = false := by
  obtain ⟨idxfd, w₁, opened₁, rest⟩ := Exec.of_call opens
  obtain ⟨datfd, w₂, opened₂, rest⟩ := Exec.of_call rest
  by_contra denied
  rw [Bool.not_eq_false] at denied
  change fileKernel () (.openFile .idx oflag.creat oflag.trunc) w = some (idxfd, w₁) at opened₁
  change fileKernel () (.openFile .dat oflag.creat oflag.trunc) w₁ = some (datfd, w₂) at opened₂
  have failed : (!idxfd || !datfd) = true := by
    cases file with
    | idx =>
      rw [fileKernel, denied, if_pos (by simp)] at opened₁
      cases opened₁
      rfl
    | dat =>
      have denied₁ : w₁.denied () .dat = true := by
        rw [fileKernel] at opened₁
        split at opened₁ <;> cases opened₁ <;> exact denied
      rw [fileKernel, denied₁, if_pos (by simp)] at opened₂
      cases opened₂
      simp
  have rest : Exec soloKernel
      ((if (!idxfd || !datfd) = true then (dbFree idxfd datfd >>= fun _ => pure false)
      else if (oflag.creat && oflag.trunc) =
        true then (dbInit >>= fun _ => dbRewind >>= fun _ => pure true)
      else (dbRewind >>= fun _ => pure true) : DbM Bool) {}) w₂ (.returned (true, db')) w' := rest
  rw [if_pos failed] at rest
  rcases Exec.of_bind rest with ⟨error, same, -⟩ | ⟨value, w₃, -, last⟩
  · cases same
  · cases last

/-- What the process has before it once it has created a database. -/
theorem Usable.of_open (unlocked : w.locks = []) {db₀ : DB}
    (opens : Exec soloKernel (dbOpen ⟨true, true⟩ db₀) w (.returned (true, db)) w') :
    Usable w' db .empty ∧ w'.bytes .dat = [] ∧ w'.pos () .idx = recordsOff := by
  obtain ⟨db', w'', runs, usable, dat, pos⟩ := exec_dbOpen_new unlocked (dbOpen_granted opens) db₀
  obtain ⟨same, rfl⟩ := opens.deterministic runs
  cases same
  exact ⟨usable, dat, pos⟩

/-! ## Calls one after the other -/

/-- The calls a process makes through one handle, with their results; `allowed` says which calls it
makes. -/
inductive Session (allowed : World Unit File → Op → Prop) (db : DB) (w : World Unit File) :
    List (Op × Res) → DB → World Unit File → Prop where
  | start : Session allowed db w [] db w
  | call {calls : List (Op × Res)} {db₁ db₂ : DB} {w₁ w₂ : World Unit File} {op : Op} {res : Res}
      (earlier : Session allowed db w calls db₁ w₁) (may : allowed w₁ op)
      (returns : Exec soloKernel (dbCall op db₁) w₁ (.returned (res, db₂)) w₂) :
      Session allowed db w (calls ++ [(op, res)]) db₂ w₂

/-- A session as a function: the calls made so far and then the others, as long as they are allowed
and return. -/
def sessionRun (allowed : World Unit File → Op → Prop) [∀ w op, Decidable (allowed w op)] :
    List Op → List (Op × Res) × DB × World Unit File →
      Option (List (Op × Res) × DB × World Unit File)
  | [], state => some state
  | op :: ops, (calls, db, w) =>
    if allowed w op then
      match (dbCall op).returns soloKernel 10000 (db, w) with
      | some (res, db, w) => sessionRun allowed ops (calls ++ [(op, res)], db, w)
      | none => none
    else none

theorem sessionRun_sound {allowed : World Unit File → Op → Prop} [∀ w op, Decidable (allowed w op)]
    {ops : List Op}
    {calls calls' : List (Op × Res)} {db₁ : DB} {w₁ : World Unit File}
    (earlier : Session allowed db w calls db₁ w₁)
    (ran : sessionRun allowed ops (calls, db₁, w₁) = some (calls', db', w')) :
    Session allowed db w calls' db' w' := by
  induction ops generalizing calls db₁ w₁ with
  | nil =>
    cases ran
    exact earlier
  | cons op ops inductionHypothesis =>
    rw [sessionRun] at ran
    split at ran
    case isTrue may =>
      split at ran
      case h_1 done => exact inductionHypothesis (.call earlier may (Code.returns_sound done)) ran
      case h_2 => cases ran
    case isFalse => cases ran

/-- The calls considered: keys and data the format can hold, the files at most as long as a pointer
can say, and a valid length of the index record if the data is appended. -/
def Admits (w : World Unit File) : Op → Prop
  | .fetch key => NulFree key
  | .store key data _ =>
    Storable key data ∧ key.length < idxlenMax ∧ Fits key data (w.bytes .dat).length ∧
      (w.bytes .dat).length ≤ ptrMax ∧ (w.bytes .idx).length ≤ ptrMax
  | .delete key => NulFree key
  | _ => False

instance (w : World Unit File) : (op : Op) → Decidable (Admits w op)
  | .fetch key => inferInstanceAs (Decidable (NulFree key))
  | .store .. => inferInstanceAs (Decidable (_ ∧ _))
  | .delete key => inferInstanceAs (Decidable (NulFree key))
  | .rewind => inferInstanceAs (Decidable False)
  | .nextrec => inferInstanceAs (Decidable False)
  | .open _ => inferInstanceAs (Decidable False)

/-- What a map answers to a call, and the map afterwards. -/
def mapCall (m : Map) : Op → Option (Res × Map)
  | .fetch key => some (.data (m key), m)
  | .store key data flag => some (.rc (mapStore m key data flag).1, (mapStore m key data flag).2)
  | .delete key => some (.rc (mapDelete m key).1, (mapDelete m key).2)
  | _ => none

/-- The map after a call, if it gives the result the call had. -/
def mapStep (m : Map) (call : Op × Res) : Option Map :=
  match mapCall m call.1 with
  | some (res, m') => if res = call.2 then some m' else none
  | none => none

/-- The map after the calls, if it gives all their results. -/
def mapRun (m : Map) (calls : List (Op × Res)) : Option Map := calls.foldlM mapStep m

theorem mapRun_snoc {m m' m'' : Map} {calls : List (Op × Res)} {op : Op} {res : Res}
    (earlier : mapRun m calls = some m')
    (last : mapCall m' op = some (res, m'')) : mapRun m (calls ++ [(op, res)]) = some m'' := by
  rw [mapRun, List.foldlM_append, show calls.foldlM mapStep m = some m' from earlier]
  simp [mapStep, last]

theorem limits_solo {key data : Bytes} {flag : Flag} (usable : Usable w db d)
    (admits : Admits w (.store key data flag)) :
    Limit (Usable.roomy d) anyCall (fun _ _ => False) () key data flag
      (Usable.start d w (.store key data flag)) := by
  obtain ⟨-, short, fits, dat, idx⟩ := admits
  have size : d.img.size ≤ ptrMax := by
    rw [usable.rep.index, usable.rep.wellFormed.bytes_length] at idx
    exact idx
  refine ⟨fun {τ} _ atEnd => ?_, fun {τ σ error} _ atEnd unfit _ _ _ => unfit ?_,
    fun {τ e} _ atEnd length => ?_,
    fun {τ σ e x} _ atEnd far _ _ _ _ _ _ => ?_, fun huge _ => ?_⟩
  · rw [atEnd.alone alone]
    exact Nat.lt_of_le_of_lt dat (by decide)
  · rw [atEnd.alone alone]
    exact fits
  · have same : τ.img.size = d.img.size := atEnd.alone alone
    simp only [Usable.roomy]
    omega
  · have same : τ.img.size = d.img.size := atEnd.alone alone
    omega
  · simp only [idxlenMax] at short
    omega

/-- One call: it returns what the map gives, and the files stand for the map again. -/
theorem Usable.call (usable : Usable w db d) {op : Op} (admits : Admits w op) :
    ∃ res db' w' d', Exec soloKernel (dbCall op db) w (.returned (res, db')) w' ∧ Usable w' db' d' ∧
      d'.lost = d.lost ∧
      mapCall d.map op = some (res, d'.map) := by
  cases op with
  | fetch key =>
    obtain ⟨db', w', runs, usable', -, -⟩ := usable.fetch admits
    exact ⟨_, db', w', d, Exec.bind runs (.ret _ _), usable', rfl, rfl⟩
  | store key data flag =>
    rcases usable.store admits.1 (limits_solo usable admits) with ⟨db', w', d', runs, usable', map,
      lost⟩ | ⟨_, _, _, _, impossible⟩
    · exact ⟨_, db', w', d', Exec.bind runs (.ret _ _), usable', lost, by rw [map]; rfl⟩
    · exact impossible.elim
  | delete key =>
    obtain ⟨db', w', d', runs, usable', map, lost⟩ := usable.delete admits
    exact ⟨_, db', w', d', Exec.bind runs (.ret _ _), usable', lost, by rw [map]; rfl⟩
  | rewind => exact admits.elim
  | nextrec => exact admits.elim
  | «open» oflag => exact admits.elim

theorem Session.usable {calls : List (Op × Res)} {db₀ : DB} {w₀ : World Unit File} {d₀ : Layout}
    (start : Usable w₀ db₀ d₀)
    (session : Session Admits db₀ w₀ calls db w) :
    ∃ d, Usable w db d ∧ d.lost = d₀.lost ∧ mapRun d₀.map calls = some d.map := by
  induction session with
  | start => exact ⟨d₀, start, rfl, rfl⟩
  | call earlier may returns inductionHypothesis =>
    obtain ⟨d, usable, lost, run⟩ := inductionHypothesis
    obtain ⟨res, db', w', d', runs, usable', lost', answer⟩ := usable.call may
    obtain ⟨same, rfl⟩ := returns.deterministic runs
    cases same
    exact ⟨d', usable', lost'.trans lost, mapRun_snoc run answer⟩

/-- Refinement: from a new database on, every call returns what a map from keys to data gives, and
none aborts. -/
theorem session_refines_map {calls : List (Op × Res)} {db₀ db₁ : DB} {w₀ w₁ : World Unit File}
    (unlocked : w₀.locks = [])
    (opens : Exec soloKernel (dbOpen ⟨true, true⟩ db₀) w₀ (.returned (true, db₁)) w₁)
    (session : Session Admits db₁ w₁ calls db w) :
    ∃ m, mapRun (fun _ => none) calls = some m ∧ ∀ op, Admits w op →
      ∃ res m' db' w', mapCall m op = some (res, m') ∧
        Exec soloKernel (dbCall op db) w (.returned (res, db')) w' ∧
        ∀ outcome w'', Exec soloKernel (dbCall op db) w outcome w'' →
          outcome = .returned (res, db') ∧ w'' = w' := by
  obtain ⟨start, -, -⟩ := Usable.of_open unlocked opens
  obtain ⟨d, usable, -, run⟩ := session.usable start
  refine ⟨d.map, run, fun op admits => ?_⟩
  obtain ⟨res, db', w', d', runs, -, -, answer⟩ := usable.call admits
  exact ⟨res, d'.map, db', w', answer, runs, fun outcome w'' other => other.deterministic runs⟩

/-- A record is stored, replaced by a longer one and fetched; another one is stored and deleted
before that. -/
theorem session_refines_map_replaced : ∃ calls db₁ w₁ db w db' w',
    Exec soloKernel (dbOpen ⟨true, true⟩ {}) .absent (.returned (true, db₁)) w₁ ∧
      Session Admits db₁ w₁ calls db w ∧
      calls = [(.store [97] [120] .insert, .rc 0), (.store [97] [120] .insert, .rc 1),
        (.store [98] [121] .insert, .rc 0),
        (.store [97] [120, 120] .replace, .rc 0), (.delete [98], .rc 0)] ∧
      Exec soloKernel (dbCall (.fetch [97]) db) w (.returned (.data (some [120, 120]), db')) w' ∧
        ∀ outcome w'', Exec soloKernel (dbCall (.fetch [97]) db) w outcome w'' →
          outcome = .returned (.data (some [120, 120]), db') ∧ w'' = w' := by
  have ran : (((dbOpen ⟨true, true⟩).returns soloKernel 10000 ({}, .absent)).bind fun (ok, s₁) =>
      (sessionRun Admits [.store [97] [120] .insert, .store [97] [120] .insert,
        .store [98] [121] .insert,
        .store [97] [120, 120] .replace, .delete [98]] ([], s₁)).map fun (calls, _) =>
        decide (ok = true ∧
          calls = [(.store [97] [120] .insert, .rc 0), (.store [97] [120] .insert, .rc 1),
          (.store [98] [121] .insert, .rc 0), (.store [97] [120, 120] .replace, .rc 0),
            (.delete [98], .rc 0)])) = some true := by
    decide +kernel
  simp only [Option.bind_eq_some_iff, Option.map_eq_some_iff] at ran
  obtain ⟨⟨ok, s₁⟩, opens, ⟨calls, s⟩, session, same⟩ := ran
  obtain ⟨rfl, rfl⟩ := of_decide_eq_true same
  have opened := Code.returns_sound opens
  have called := sessionRun_sound .start session
  obtain ⟨m, run, next⟩ := session_refines_map rfl opened called
  obtain ⟨res, m', db', w', answer, runs, only⟩ := next (.fetch [97]) (show NulFree [97] by decide)
  -- the map has taken the same calls
  cases run
  cases answer
  exact ⟨_, s₁.1, s₁.2, s.1, s.2, db', w', opened, called, rfl, runs, only⟩

end Apue.Db
