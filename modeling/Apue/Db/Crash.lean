import Apue.Base.Crash
import Apue.Db.Concurrent

/-! # Processes killed inside an operation

`db.c` has no recovery: the kernel drops the record locks of a process that is killed, whatever it
was doing to the lists.  What saves the others is that a process only changes lists it has locked to
write.  As long as they keep away from the lists the dead had locked, they go on as if nobody had
been killed.
-/

namespace Apue.Db

open Apue.Base St

variable {ι : Type} [DecidableEq ι] {room : Nat} {scans : ι → Prop} {σ τ : St ι} {p q : ι}
    {dead : List ι} {debris : Locks ι File} {db : DB}

abbrev DbScene (ι : Type) :=
  Scene ι (FileSig File) Err (World ι File) Op (Option DB) Res (Locks ι File)

/-! ## Readers leave nothing -/

/-- The process holds only what it had locked to write. -/
def St.dropReads (σ : St ι) (p : ι) : St ι :=
  { σ with w := { σ.w with locks := σ.w.locks.filter fun (q, l) => ¬(q = p ∧ l.type = .read) } }

theorem St.mem_dropReads {l : Lock File} :
    (q, l) ∈ (σ.dropReads p).w.locks ↔ (q, l) ∈ σ.w.locks ∧ ¬(q = p ∧ l.type = .read) := by
  simp only [St.dropReads, List.mem_filter, decide_eq_true_eq]

theorem St.holds_dropReads {place : Place} :
    (σ.dropReads p).Holds q place .write ↔ σ.Holds q place .write := by
  unfold St.Holds
  rw [St.mem_dropReads]
  simp [Place.lock]

theorem Coherent.dropReads (inv : Coherent room σ) (p : ι) : Coherent room (σ.dropReads p) where
  img := inv.img
  idx := inv.idx
  room := inv.room
  stored := ⟨inv.stored.there, inv.stored.apart⟩
  sorted := ⟨inv.sorted.owned, inv.sorted.one, inv.sorted.nodup, inv.sorted.listed⟩
  consistent q r l m held held' :=
    inv.consistent q r l m (St.mem_dropReads.1 held).1 (St.mem_dropReads.1 held').1
  places held := inv.places (St.mem_dropReads.1 held).1
  chain h real := by
    have old := inv.chain h real
    refine ⟨old.hashed, fun unheld => ?_, fun {q x e} held member found visible => ?_⟩
    · exact (old.still fun q held => unheld q (St.holds_dropReads.2 held)).congr
        ⟨rfl, fun _ _ => rfl⟩ rfl
    · exact (old.live (St.holds_dropReads.1 held) member found visible).imp_left
        St.holds_dropReads.2
  free := ⟨inv.free.blank, fun unheld =>
    (inv.free.still fun q held => unheld q (St.holds_dropReads.2 held)).congr
      ⟨rfl, fun _ _ => rfl⟩ rfl⟩
  priv q := ⟨fun unheld => (inv.priv q).still fun h real held =>
    unheld h real (St.holds_dropReads.2 held), (inv.priv q).live⟩

theorem St.dropReads_rely (other : q ≠ p) : Rely q σ (σ.dropReads p) where
  alone only := absurd (only p).symm other
  pos := rfl
  locks l := by simp [St.mem_dropReads, other]
  status := rfl
  same o _ := .of_parts ⟨rfl, fun _ _ => rfl⟩ (fun _ _ _ _ _ => rfl) rfl rfl (fun _ _ => rfl) rfl
  grows := .refl σ
  lasting _ := .refl σ
  lost := ⟨rfl, fun _ _ => rfl⟩

/-! ## The dead hold what they have left -/

theorem withstands (scans : ι → Prop) :
    Withstands (users scans) (writeLocks ι File) (discipline fullRoom withinLimits) Limits
    St.obj Haunted where
  call haunted alive avoids answers := haunted.call alive avoids answers
  limits {p op c dead debris w g} haunted within := by
    rw [haunted.same]
    cases c <;> exact within
  kill {p dead debris w σ} haunted alive inv := by
    have foreign (l : Lock File) : (p, l) ∉ debris := fun left => alive (haunted.gone left)
    refine ⟨σ.dropReads p, Coherent.dropReads inv p, fun q other => St.dropReads_rely other, rfl,
      ?_, fun q l => ?_, ?_, ?_⟩
    · have same : σ.w = { w with locks := σ.w.locks } := haunted.same
      change ({ σ.w with locks := _ } : World ι File) = _
      rw [same]
      rfl
    · change (q, l) ∈ (σ.dropReads p).w.locks ↔ (q, l) ∈ w.locks.releaseAll p ∨
        (q, l) ∈ (writeLocks ι File).leave p w debris
      have here : (q, l) ∈ σ.w.locks ↔ _ := haunted.locks q l
      simp only [St.mem_dropReads, here, writeLocks, Locks.releaseAll, List.mem_append,
        List.mem_filter, decide_eq_true_eq]
      by_cases own : q = p
      · subst own
        cases l.type <;> simp_all
      · simp [own]
    · intro q l left
      simp only [writeLocks, List.mem_append, List.mem_filter, decide_eq_true_eq] at left
      rcases left with ⟨-, rfl, -⟩ | before
      · exact List.mem_cons_self
      · exact List.mem_cons_of_mem _ (haunted.gone before)
    · intro q l held
      change (q, l) ∈ w.locks.releaseAll p at held
      simp only [Locks.releaseAll, List.mem_filter, decide_eq_true_eq] at held
      rw [List.mem_cons, not_or]
      exact ⟨held.2, haunted.alive held.1⟩

section

variable {c : DbConfig ι} {d : Layout} {s : DbScene ι} {history : List (DbEvent ι)}

/-- The state explains the processes that are alive, the dead holding what they have left. -/
abbrev Outlived (scans : ι → Prop) (σ : St ι) (s : DbScene ι) : Prop :=
  Survives (discipline fullRoom withinLimits) St.obj (Between scans) (Answered scans) Haunted σ s

/-- Nobody has been killed. -/
def unharmed (c : DbConfig ι) : DbScene ι := ⟨c, [], []⟩

theorem Opened.outlived (opened : Opened scans c d) :
    Outlived scans (d.state c.world fun _ => .idle) (unharmed c) := by
  have explained := opened.explained
  refine ⟨⟨rfl, fun q l => ?_, ?_, ?_⟩, ⟨rfl, explained.inv, fun p _ => explained.procs p⟩⟩
  · change (q, l) ∈ c.world.locks ↔ _
    simp [unharmed]
  · intro q l left
    cases left
  · intro q l _ member
    cases member

/-- Every scene a run leads to is explained, and its history by the effects on the map. -/
theorem Opened.outlives (opened : Opened scans c d)
    (run : CrashRun (users scans) (writeLocks ι File) Limits (unharmed c) history s) :
    ∃ σ, Outlived scans σ s ∧ Linearizable dbSpec d.atomic history σ.obj :=
  run.survives (implements scans) (withstands scans) opened.outlived

/-- The shared state with what the dead had locked to write still locked. -/
def withDebris (s : DbScene ι) : World ι File :=
  { s.config.world with locks := s.config.world.locks ++ s.debris }

theorem Outlived.locks (outlived : Outlived scans σ s) (q : ι) (l : Lock File) :
    (q, l) ∈ σ.w.locks ↔ (q, l) ∈ (withDebris s).locks := by
  have same : (q, l) ∈ σ.w.locks ↔ _ := outlived.kept.locks q l
  rw [same]
  simp [withDebris]

theorem Outlived.inOrder (outlived : Outlived scans σ s) : InOrder (withDebris s) σ.layout := by
  have inv : Coherent fullRoom σ := outlived.among.inv
  have bytes : (withDebris s).bytes = σ.w.bytes := by
    have same : σ.w = _ := outlived.kept.same
    rw [same]
    rfl
  refine ⟨inv.img, by rw [bytes]; exact inv.idx, St.layout_nodup inv.sorted, fun h real unheld => ?_, fun unheld => ?_⟩
  · exact ((inv.chain h real).still fun q held => unheld q ((outlived.locks ..).1 held)).linked
  · exact (inv.free.still fun q held => unheld q ((outlived.locks ..).1 held)).linked

/-- The processes that are alive are between two operations. -/
def Resting (s : DbScene ι) : Prop := ∀ p ∉ s.dead, ∃ handle, s.config.procs p = .idle handle

theorem Outlived.between (outlived : Outlived scans σ s) {handle : Option DB} (alive : p ∉ s.dead)
    (idle : s.config.procs p = .idle handle) :
    Between scans p handle σ ∧ σ.obj.status p = .idle := by
  have here : Proven _ _ _ _ σ p (s.config.procs p) := outlived.among.procs p alive
  rw [idle] at here
  exact here

/-- While the others rest, all locks are those of the dead. -/
theorem Outlived.resting (outlived : Outlived scans σ s) (resting : Resting s) {l : Lock File} :
    (q, l) ∈ σ.w.locks ↔ (q, l) ∈ s.debris := by
  have same : (q, l) ∈ σ.w.locks ↔ _ := outlived.kept.locks q l
  constructor
  · intro held
    rcases same.1 held with here | left
    · have alive := outlived.kept.alive here
      obtain ⟨handle, idle⟩ := resting q alive
      cases ((outlived.between alive idle).1.holding l).1 held
    · exact left
  · exact fun left => same.2 (.inr left)

/-- Whichever processes are killed, and when: as long as the others ask for nothing the dead had
locked to write, every call of theirs takes effect at one moment between its start and its return,
on a map from keys to data, no call aborts, and every list the dead were not changing stays in
order; if they were changing none, the files stand for the map when the others rest. -/
theorem crashes_are_contained (opened : Opened scans c d)
    (run : CrashRun (users scans) (writeLocks ι File) Limits (unharmed c) history s) :
    (∀ p ∉ s.dead, ∀ error, s.config.procs p ≠ .stopped error) ∧
      ∃ a d', Linearizable dbSpec d.atomic history a ∧ InOrder (withDebris s) d' ∧
        (Resting s → s.debris = [] →
          DbRep (s.config.world.bytes .idx) (s.config.world.bytes .dat) d' ∧ d'.map = a.value) := by
  obtain ⟨σ, outlived, linear⟩ := opened.outlives run
  have running (p : ι) (alive : p ∉ s.dead) (error : Err) :
      s.config.procs p ≠ .busy .rewind (.abort error) ∧
      s.config.procs p ≠ .stopped error := outlived.running alive
  refine ⟨fun p alive error => (running p alive error).2, σ.obj, σ.layout, linear,
    outlived.inOrder, ?_⟩
  intro resting nothing
  have inv : Coherent fullRoom σ := outlived.among.inv
  have bytes : σ.w.bytes = s.config.world.bytes := by
    have same : σ.w = _ := outlived.kept.same
    rw [same]
  rw [← bytes]
  refine inv.rep fun q l held => ?_
  have left := (outlived.resting resting).1 held
  rw [nothing] at left
  cases left

/-- One of two processes has called `db_store`, has locked the chain of its key, and has been
killed. -/
theorem killed_storing :
    ∃ s : DbScene Bool, CrashRun (users fun _ => False) (writeLocks Bool File) Limits
    (unharmed freshConfig)
    [.invoke true (.store [97] [98] .insert)] s ∧ s.dead = [true] ∧
      s.debris = [(true, (keyPlace [97]).lock .write)] ∧
      s.config.procs false = .idle (some {}) := by
  let op : Op := .store [97] [98] .insert
  let M : DbSystem Bool := users fun _ => False
  have locks : ∃ next, dbCode op (some {}) =
      .call (.setlkw .idx .write (keyPlace [97]).range) next := by
    unfold dbCode dbCall dbStore
    dsimp only [op]
    rw [if_neg (by decide), if_neg (by decide)]
    exact ⟨_, rfl⟩
  obtain ⟨next, starts⟩ := locks
  have allowed : M.may true (some {}) op :=
    ⟨.inl rfl, ⟨⟨by simp [NulFree], by decide, by simp [NulFree], by decide, by decide⟩, by decide⟩,
      id⟩
  let called : DbConfig Bool := freshConfig.setProc true (.busy op (M.code op (some {})))
  have first : Step M true freshConfig [.invoke true op] called := .invoke rfl allowed
  have busy : called.procs true =
      .busy op (.call (.setlkw .idx .write (keyPlace [97]).range) next) := by
    rw [← starts, ← show M.code = dbCode from rfl]
    exact Config.setProc_self ..
  let locked : World Bool File :=
    { called.world with locks := [(true, (keyPlace [97]).lock .write)] }
  have granted : M.kernel true (.setlkw .idx .write (keyPlace [97]).range) called.world =
      some (true, locked) := by
    change fileKernel true (.setlkw .idx .write (keyPlace [97]).range) called.world = _
    have nobody : called.world.locks = [] := rfl
    rw [fileKernel, if_neg (by simp [nobody, Locks.blocked]), nobody]
    rfl
  have second : Step M true called [] (Config.setProc { called with world := locked } true
      (.busy op (next true))) :=
    .call busy granted
  have run₀ : CrashRun M (writeLocks Bool File) Limits (unharmed freshConfig)
    [] (unharmed freshConfig) := .start _
  have run₁ := run₀.step (p := true) (by simp [unharmed])
    (fun _ _ _ impossible => by cases impossible) first
  have run₂ := run₁.step (p := true) (by simp [unharmed]) (fun op' request rest now => by
    cases busy.symm.trans now
    exact ⟨trivial, fun q l left => by cases left⟩) second
  refine ⟨_, run₂.kill (p := true) (by simp [unharmed]), rfl, ?_, rfl⟩
  simp [writeLocks, unharmed, locked, Place.lock]

theorem crashes_are_contained_storing :
    ∃ (s : DbScene Bool) (a : Atomic Bool Map Op Res) (d' : Layout),
    s.debris = [(true, (keyPlace [97]).lock .write)] ∧
      Linearizable (ε := Err) dbSpec Layout.empty.atomic [.invoke true (.store [97] [98] .insert)]
        a ∧ InOrder (withDebris s) d' := by
  obtain ⟨s, run, -, debris, -⟩ := killed_storing
  obtain ⟨-, a, d', linear, inOrder, -⟩ := crashes_are_contained (freshConfig_opened _) run
  exact ⟨s, a, d', debris, linear, inOrder⟩

/-! ## Reading what the dead have left -/

/-- The code asks for no lock but `l`. -/
def asksFor (l : Lock File) : Checker (FileSig File) Err Unit where
  guard _
    | .setlkw file type range => ⟨file, type, range⟩ = l
    | .write .. => False
    | _ => True
  next _ _ _ _ := True
  stops _ _ := True

/-- Run on a chain, the code asks for no lock but `l`. -/
abbrev Asks {α : Type} (l : Lock File) (chainoff : Nat) (m : DbM α) : Prop :=
  (asksFor l).Preserves (fun db _ => OnChain chainoff db) m

namespace Asks

open Checker (Preserves)

variable {l : Lock File} {chainoff : Nat}

theorem abort {α : Type} (error : Err) : Asks l chainoff (Code.abort error : DbM α) :=
  Preserves.abort fun _ _ _ => trivial

theorem sys {request : FileCall File} (may : (asksFor l).guard () request) :
    Asks l chainoff (Db.sys request) :=
  Preserves.call (fun _ _ _ => may) fun _ _ _ _ here _ => here

theorem lseek (file : File) (offset : Int) (whence : Whence) (error : Err) :
    Asks l chainoff (Db.lseek file offset whence error) := by
  refine .bind (sys trivial) fun result => ?_
  cases result with
  | none => exact abort error
  | some offset => exact .pure offset

theorem read (file : File) (count : Nat) : Asks l chainoff (Db.read file count) := sys trivial

/-- The fields a chain is known by stay as they are. -/
theorem modified {f : DB → DB} (same : ∀ db, OnChain chainoff db → OnChain chainoff (f db)) :
    Asks l chainoff (modify f : DbM PUnit) :=
  Preserves.modified fun db _ => same db

theorem readptr (offset : Int) : Asks l chainoff (dbReadptr offset) :=
  .bind (lseek ..) fun _ => .bind (read ..) fun _ => .ite (abort _) (.pure _)

theorem readidx (offset : Int) : Asks l chainoff (dbReadidx offset) := by
  refine .bind (lseek ..) fun _ => .bind (modified fun _ here => ⟨here.1, here.2, here.3⟩) fun _ =>
    .bind (read ..) fun iov => ?_
  refine .ite ?_ (.ite (.pure _) (abort _))
  refine .bind (modified fun _ here => ⟨here.1, here.2, here.3⟩) fun _ =>
    .ite (abort _) (.bind (read ..) fun idxbuf => .ite (abort _) ?_)
  split
  · exact abort _
  · exact .bind (modified fun _ here => ⟨here.1, here.2, here.3⟩) fun _ => .pure _

theorem readdat : Asks l chainoff dbReaddat := by
  refine .get fun _ => .bind (lseek ..) fun _ => .bind (read ..) fun _ =>
    .ite (abort _) (.ite (abort _) ?_)
  exact .bind (modified fun _ here => ⟨here.1, here.2, here.3⟩) fun _ => .pure _

/-- `db_fetch` asks for no lock but that of its chain. -/
theorem fetch (key : Bytes) {db : DB} (nhash : db.nhash = nhashDef)
    (hashoff : db.hashoff = hashOff) :
    (asksFor ((keyPlace key).lock .read)).Keeps () (dbFetch key) db fun _ _ _ => True := by
  let h := dbHash nhashDef key
  have locks : (asksFor ((keyPlace key).lock .read)).Keeps () (dbFindAndLock key false) db
      fun _ db' _ => OnChain (chainOff h) db' := by
    refine .modifyThen ?_
    have here : OnChain (chainOff h) { db with
        chainoff := dbHash db.nhash key * ptrSz + db.hashoff, ptroff :=
          (dbHash db.nhash key * ptrSz + db.hashoff : Nat) } :=
      ⟨nhash, hashoff, by simp only [nhash, hashoff, h]⟩
    refine .bind (M := fun _ db' _ => OnChain (chainOff h) db') ?_ fun _ db' t here' => ?_
    · refine .getThen (.bind (M := fun _ db' _ => OnChain (chainOff h) db') ?_
        fun granted db' _ here' => ?_)
      · refine .call ?_ fun _ _ _ => here
        rw [here.chain]
        rfl
      · cases granted with
        | true => exact .pure here'
        | false => exact .abort trivial
    · have walk : Asks ((keyPlace key).lock .read) (chainOff h) (do
          let db ← get
          let offset ← dbReadptr db.ptroff
          let offset ← Code.loop (findTurn key) offset
          pure (if offset = 0 then -1 else 0) : DbM Int) := by
        refine .get fun _ => .bind (readptr _) fun _ => .bind (.loop (fun offset => ?_) _)
          fun _ => .pure _
        refine .ite (.pure _) (.bind (readidx _) fun _ => .get fun _ => .ite (.pure _) ?_)
        exact .bind (modified fun _ here => ⟨here.1, here.2, here.3⟩) fun _ => .pure _
      exact walk.keeps here'
  refine .bind locks fun found db' t here => ?_
  have rest : Asks ((keyPlace key).lock .read) (chainOff h) (do
      let data ← fetchFound found
      unlockChain .fetchUnlock
      pure data : DbM (Option Bytes)) := by
    refine .bind (.ite ?_ ?_) fun _ => .bind (.get fun _ => .bind (sys trivial) fun (_ : Bool) =>
      .ite (.pure _) (abort _)) fun _ => .pure _
    · exact .bind (modified fun _ here => ⟨here.1, here.2, here.3⟩) fun _ => .pure _
    · exact .bind readdat fun _ =>
        .bind (modified fun _ here => ⟨here.1, here.2, here.3⟩) fun _ => .pure _
  exact (rest.keeps here).weaken fun _ _ _ _ => trivial

end Asks

/-- The effect of a fetch is to find out what its key is bound to. -/
def Fetching (p : ι) (key : Bytes) (m : Map) (σ : St ι) : Prop :=
  σ.map = m ∧ (σ.obj.status p = .pending (.fetch key) ∨
    σ.obj.status p = .done (.fetch key) (.data (m key)))

theorem Fetching.guar {key : Bytes} {m : Map} (fetching : Fetching p key m σ) (kept : Guar p σ τ) :
    Fetching p key m τ := by
  obtain ⟨rfl, status⟩ := fetching
  unfold Fetching St.map
  rcases kept.object with same | moved
  · rw [same]
    exact ⟨rfl, status⟩
  · generalize τ.obj = after at moved
    cases moved with
    | @effect _ op res value pending allowed =>
      rcases status with waiting | done
      · rw [pending] at waiting
        cases waiting
        obtain ⟨rfl, rfl⟩ := allowed
        exact ⟨rfl, .inr (Atomic.setStatus_self ..)⟩
      · rw [pending] at done
        cases done

/-- Nobody else has the chain of the key locked to write. -/
def Unclaimed (p : ι) (key : Bytes) (σ : St ι) : Prop :=
  ∀ q, q ≠ p → ¬σ.Holds q (keyPlace key) .write

/-- A fetch from a chain nobody has locked to write returns what the key is bound to, whatever else
is locked. -/
theorem fetch_returns (inv : Coherent fullRoom σ) (quiet : Between scans p (some db) σ)
    {key : Bytes} (clean : NulFree key) (unclaimed : Unclaimed p key σ) :
    ∃ db' τ, Exec (fileKernel p) (dbFetch key db) σ.w (.returned (σ.map key, db')) τ := by
  obtain ⟨_, same, nhash, hashoff⟩ := quiet.handle
  cases same
  obtain ⟨inv', -⟩ := inv.changeStatus quiet.holding (.pending (.fetch key))
  let σ₀ := σ.setObj (σ.obj.setStatus p (.pending (.fetch key)))
  have own := (inv.priv p).still quiet.holding.unheld
  have ready : Ready σ₀ p (.fetch key) := ⟨quiet.holding, Atomic.setStatus_self .., own⟩
  let D : Discipline ι (FileSig File) (World ι File) (St ι) := discipline fullRoom fun _ _ _ => True
  have triple : Triple D p (fun _ _ => False) σ₀ (dbFetch key) db _ :=
    triple_fetch clean ready nhash hashoff
  have safe := triple σ₀ (Rely.refl p σ₀) inv'
  have start : Unclaimed p key σ₀ ∧ Fetching p key σ.map σ₀ :=
    ⟨unclaimed, rfl, .inl (Atomic.setStatus_self ..)⟩
  -- only the lock on the chain could block
  have moves {t : Unit} {τ : St ι} {request : FileCall File} (here : Unclaimed p key τ ∧
      Fetching p key σ.map τ)
      (inv₁ : Coherent fullRoom τ) (may : (asksFor ((keyPlace key).lock .read)).guard t request) :
      (fileKernel p request τ.w).isSome := by
    refine fileKernel_isSome fun file type range isLock => ?_
    subst isLock
    have asked : (⟨file, type, range⟩ : Lock File) = (keyPlace key).lock .read := may
    rw [asked, Locks.not_blocked]
    intro q l held other
    by_contra conflict
    rw [Bool.not_eq_false] at conflict
    obtain ⟨place, type', real, rfl⟩ := inv₁.places held
    obtain ⟨rfl, kinds⟩ := (Place.conflicts_iff (keyPlace_real key) real).1 conflict
    rcases kinds with impossible | rfl
    · cases impossible
    · exact here.1 q other held
  obtain ⟨outcome, t, τ, runs, inv₂, ⟨-, -, status⟩, holds⟩ :=
    safe.exec_guided (Asks.fetch key nhash hashoff)
    (R := fun _ τ => Unclaimed p key τ ∧ Fetching p key σ.map τ) start inv'
    (fun _ _ => trivial) moves
    fun here _ _ _ kept =>
      ⟨(), trivial, fun q other held => here.1 q other ((kept.locks q other _).1 held),
      here.2.guar kept⟩
  cases outcome with
  | aborted error =>
    obtain ⟨-, σ', impossible, -⟩ := holds
    exact impossible.elim
  | returned result =>
    obtain ⟨-, σ', ⟨-, -, finished, -⟩, relied⟩ := holds
    have done := relied.status.trans finished.status
    rcases status with waiting | fetched
    · rw [waiting] at done
      cases done
    · rw [fetched] at done
      obtain ⟨data, db'⟩ := result
      have same : σ.map key = data := by
        injection done with _ same
        injection same
      rw [same]
      exact ⟨db', τ.w, runs⟩

/-- Once the processes that are left rest, a fetch of any of them returns, for every key whose chain
no process was changing when it was killed, what the key is bound to; no matter what has become of
the other chains. -/
theorem fetch_after_crashes (opened : Opened scans c d)
    (run : CrashRun (users scans) (writeLocks ι File) Limits (unharmed c) history s)
    (resting : Resting s) :
    ∃ a, Linearizable dbSpec d.atomic history a ∧
      ∀ p ∉ s.dead, ∀ db, s.config.procs p = .idle (some db) →
      ∀ key, NulFree key → (∀ q, (q, (keyPlace key).lock .write) ∉ s.debris) →
        ∃ db' w', Exec (fileKernel p) (dbFetch key db) s.config.world
          (.returned (a.value key, db')) w' := by
  obtain ⟨σ, outlived, linear⟩ := opened.outlives run
  refine ⟨σ.obj, linear, fun p alive db idle key clean clear => ?_⟩
  obtain ⟨quiet, -⟩ := outlived.between alive idle
  have unclaimed : Unclaimed p key σ := fun q _ held => clear q ((outlived.resting resting).1 held)
  obtain ⟨db', τ, runs⟩ := fetch_returns outlived.among.inv quiet clean unclaimed
  obtain ⟨w', runs', -⟩ := outlived.kept.exec alive runs
  exact ⟨db', w', runs'⟩

/-- The other process fetches a key of another chain. -/
theorem fetch_after_crashes_storing :
    ∃ (s : DbScene Bool) (a : Atomic Bool Map Op Res) (db' : DB) (w' : World Bool File),
    s.debris = [(true, (keyPlace [97]).lock .write)] ∧
      Exec (fileKernel false) (dbFetch [98] {}) s.config.world
        (.returned (a.value [98], db')) w' := by
  obtain ⟨s, run, dead, debris, idle⟩ := killed_storing
  have resting : Resting s := by
    rintro (_ | _) alive
    · exact ⟨_, idle⟩
    · simp [dead] at alive
  obtain ⟨a, -, fetches⟩ := fetch_after_crashes (freshConfig_opened _) run resting
  have clear (q : Bool) : (q, (keyPlace [98]).lock .write) ∉ s.debris := by
    rw [debris, List.mem_singleton, Prod.mk.injEq]
    rintro ⟨-, same⟩
    exact absurd (Place.lock_inj (keyPlace_real _) (keyPlace_real _) same).1 (by decide)
  obtain ⟨db', w', runs⟩ := fetches false (by simp [dead]) {} idle [98] (by simp [NulFree]) clear
  exact ⟨s, a, db', w', debris, runs⟩

end

end Apue.Db
