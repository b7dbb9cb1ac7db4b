import Apue.Db.Layout
import Apue.Db.Scan
import Apue.Db.Store
import Mathlib.Data.Fintype.Basic

/-! # Any number of processes on one database

The operations as an implementation of an atomic map.  The processes that scan do nothing else with
their handle, since a scan goes on at the file offset.
-/

namespace Apue.Db

open Apue.Base St

variable {ι : Type} [DecidableEq ι]

/-! ## The operations considered -/

/-- Keys and data the format can hold. -/
def Admissible : Op → Prop
  | .fetch key => NulFree key
  | .store key data _ => Storable key data ∧ key.length < idxlenMax
  | .delete key => NulFree key
  | .rewind => True
  | .nextrec => True
  | .open _ => False

instance : (op : Op) → Decidable (Admissible op)
  | .fetch key => inferInstanceAs (Decidable (NulFree key))
  | .store .. => inferInstanceAs (Decidable (_ ∧ _))
  | .delete key => inferInstanceAs (Decidable (NulFree key))
  | .rewind => inferInstanceAs (Decidable True)
  | .nextrec => inferInstanceAs (Decidable True)
  | .open _ => inferInstanceAs (Decidable False)

/-- A process scans, or it uses keys. -/
def Plays (scans : Prop) : Op → Prop
  | .rewind => scans
  | .nextrec => scans
  | .open _ => False
  | _ => ¬scans

instance (scans : Prop) [Decidable scans] : (op : Op) → Decidable (Plays scans op)
  | .rewind => inferInstanceAs (Decidable scans)
  | .nextrec => inferInstanceAs (Decidable scans)
  | .open _ => inferInstanceAs (Decidable False)
  | .fetch _ => inferInstanceAs (Decidable ¬scans)
  | .store .. => inferInstanceAs (Decidable ¬scans)
  | .delete _ => inferInstanceAs (Decidable ¬scans)

/-- The limits of the format: nothing is written at an offset no pointer can hold, and data is
appended where the index record for it has a valid length. -/
def Limits (p : ι) (op : Op) (c : FileCall File) (w : World ι File) : Prop :=
  match c with
  | .write file _ => w.pos p file ≤ ptrMax ∧ (file = .dat → w.pos p .dat = (w.bytes .dat).length →
      ∀ key data flag, op = .store key data flag → Fits key data (w.bytes .dat).length)
  | _ => True

instance (op : Op) (doff : Nat) :
    Decidable (∀ key data flag, op = .store key data flag → Fits key data doff) :=
  match op with
  | .store key data flag => decidable_of_iff (Fits key data doff)
      ⟨fun fits _ _ _ same => by cases same; exact fits, fun fits => fits key data flag rfl⟩
  | .open _ | .fetch _ | .delete _ | .rewind | .nextrec =>
    isTrue fun _ _ _ impossible => by cases impossible

instance (p : ι) (op : Op) (c : FileCall File) (w : World ι File) : Decidable (Limits p op c w) :=
  match c with
  | .write .. => inferInstanceAs (Decidable (_ ∧ _))
  | .openFile .. | .close _ | .fstat _ | .lseek .. | .read .. | .setlkw .. | .unlock .. =>
    isTrue trivial

instance [Fintype ι] (c : DbConfig ι) : Decidable (Within Limits c) :=
  decidable_of_iff (∀ p, ∀ asked ∈ (c.procs p).request, Limits p asked.1 asked.2 c.world)
    within_iff.symm

/-- The processes `scans` scan the database that the others use. -/
def users (scans : ι → Prop) : DbSystem ι := dbSystem fun p op => Admissible op ∧ Plays (scans p) op

instance (scans : ι → Prop) [DecidablePred scans] (p : ι) (handle : Option DB) (op : Op) :
    Decidable ((users scans).may p handle op) :=
  inferInstanceAs (Decidable (HasHandle op handle ∧ Admissible op ∧ Plays (scans p) op))

/-- The room an index file needs whose records are at offsets a pointer can hold. -/
abbrev fullRoom : Nat := ptrMax + 11 + idxlenMax

/-- The limits, as an assumption about the calls. -/
def withinLimits (p : ι) (c : FileCall File) (σ : St ι) : Prop :=
  ∀ op, (σ.obj.status p).About op → Limits p op c σ.w

omit [DecidableEq ι] in
theorem limits_store {p : ι} {key data : Bytes} {flag : Flag} {σ : St ι}
    (short : key.length < idxlenMax) :
    Limit fullRoom withinLimits (fun _ _ => False) p key data flag σ where
  sized {τ} given atEnd := by
    have := (given _ (.inl atEnd.status)).1
    rw [atEnd.pos] at this
    exact Nat.lt_of_le_of_lt this (by decide)
  long {τ σ error} given atEnd unfit _ _ _ :=
    unfit ((given _ (.inl atEnd.status)).2 rfl atEnd.pos key data flag rfl)
  roomy {τ e} given atEnd length := by
    have := (given _ (.inl atEnd.status)).1
    rw [atEnd.pos] at this
    simp only [fullRoom]
    omega
  far {τ σ e x} given atEnd far _ _ _ _ _ _ := by
    have := (given _ (.inl atEnd.status)).1
    rw [atEnd.pos] at this
    omega
  huge huge _ := by
    simp only [idxlenMax] at short
    omega

/-! ## The operations implement the map -/

section

variable {scans : ι → Prop} {p : ι} {σ τ : St ι} {db : DB} {op : Op}

/-- The process is between two operations. -/
structure Between (scans : ι → Prop) (p : ι) (handle : Option DB) (σ : St ι) : Prop where
  holding : Holding σ p []
  handle : ∃ db, handle = some db ∧ db.nhash = nhashDef ∧ db.hashoff = hashOff
  lost : σ.members .lost = []
  cursor : scans p → Boundary σ.img (σ.w.pos p .idx)

/-- The process has the result of its operation. -/
structure Answered (scans : ι → Prop) (p : ι) (op : Op) (result : Res × Option DB) (σ : St ι) : Prop
    extends Between scans p result.2 σ where
  status : σ.obj.status p = .done op result.1

omit [DecidableEq ι] in
theorem Between.later {handle : Option DB} (quiet : Between scans p handle σ)
    (relied : Rely p σ τ) : Between scans p handle τ := by
  refine ⟨quiet.holding.later relied, quiet.handle, relied.lost.members.trans quiet.lost,
    fun scanner => ?_⟩
  rw [relied.pos]
  exact (quiet.cursor scanner).later relied.grows

theorem Between.setStatus {handle : Option DB} (quiet : Between scans p handle σ)
    (status : Status Op Res) :
    Between scans p handle (σ.setObj (σ.obj.setStatus p status)) :=
      ⟨quiet.holding, quiet.handle, quiet.lost, quiet.cursor⟩

omit [DecidableEq ι] in
theorem Finished.answered {res : Res} {σ' : St ι} (finished : Finished σ' p op res)
    (nhash : db.nhash = nhashDef)
    (hashoff : db.hashoff = hashOff) (none : σ'.members .lost = [])
    (cursor : scans p → Boundary σ'.img (σ'.w.pos p .idx)) :
    Answered scans p op (res, some db) σ' :=
  ⟨⟨finished.holding, ⟨db, rfl, nhash, hashoff⟩, none, cursor⟩, finished.status⟩

/-- Every operation ends with its effect, for any number of processes. -/
theorem triple_dbCall (admissible : Admissible op) (plays : Plays (scans p) op)
    (quiet : Between scans p (some db) σ)
    (ready : Ready σ p op) :
    Triple (discipline fullRoom withinLimits) p (fun _ _ => False) σ (dbCall op) db
        fun res db' σ' =>
      Answered scans p op (res, handleAfter res db') σ' := by
  obtain ⟨_, same, nhash, hashoff⟩ := quiet.handle
  cases same
  cases op with
  | «open» oflag => exact admissible.elim
  | fetch key =>
    refine .bind (triple_fetch admissible ready nhash hashoff) ?_
    rintro data db' σ' ⟨nhash', hashoff', finished, lost, -⟩
    exact .pure (finished.answered nhash' hashoff' (lost.trans quiet.lost) fun scanner =>
      absurd scanner plays)
  | store key data flag =>
    refine .bind (triple_store admissible.1 (limits_store admissible.2) ready nhash hashoff) ?_
    rintro rc db' σ' updated
    exact .pure (updated.finished.answered updated.nhash updated.hashoff
      (updated.lost.trans quiet.lost)
      fun scanner => absurd scanner plays)
  | delete key =>
    refine .bind (triple_delete admissible ready nhash hashoff) ?_
    rintro rc db' σ' updated
    exact .pure (updated.finished.answered updated.nhash updated.hashoff
      (updated.lost.trans quiet.lost)
      fun scanner => absurd scanner plays)
  | rewind =>
    refine .bind (triple_rewind ready nhash hashoff) ?_
    rintro - db' σ' rewound
    exact .pure (rewound.finished.answered rewound.nhash rewound.hashoff
      (rewound.lost.trans quiet.lost)
      fun _ => .inl rewound.pos)
  | nextrec =>
    refine .bind (triple_nextrec ready (quiet.cursor plays) nhash hashoff) ?_
    rintro record db' σ' scanned
    exact .pure (Finished.answered ⟨scanned.holding, scanned.status quiet.lost⟩ scanned.nhash
      scanned.hashoff
      (scanned.lost.trans quiet.lost) fun _ => scanned.boundary)

omit [DecidableEq ι] in
theorem Holding.unheld (holding : Holding σ p []) (h : Nat) (_ : h < nhashDef) :
    ¬σ.Holds p (.chain h) .write := fun held => by
  cases (holding _).1 held

/-- Entering and leaving an operation is seen by nobody else. -/
theorem Coherent.changeStatus {room : Nat} (inv : Coherent room σ) (holding : Holding σ p [])
    (status : Status Op Res) :
    Coherent room (σ.setObj (σ.obj.setStatus p status)) ∧ ∀ q, q ≠ p →
      Rely q σ (σ.setObj (σ.obj.setStatus p status)) :=
  ⟨inv.setStatus holding.unheld (fun _ other => Atomic.setStatus_other _ _ other) rfl,
    fun _ other => St.setObj_rely other (Atomic.setStatus_other _ _ other) rfl⟩

theorem implements (scans : ι → Prop) :
    Implements (users scans) (discipline fullRoom withinLimits) Limits dbSpec St.obj
    (Between scans) (Answered scans) where
  kernel := rfl
  given within := within
  effect kept := kept.object
  later relied quiet := quiet.later relied
  enter {p handle op σ} quiet inv allowed idle := by
    obtain ⟨-, admissible, plays⟩ := allowed
    obtain ⟨inv', relied⟩ := inv.changeStatus quiet.holding (.pending op)
    refine ⟨σ.setObj (σ.obj.setStatus p (.pending op)), rfl, inv', relied, rfl, ?_⟩
    obtain ⟨db, same, -⟩ := quiet.handle
    subst same
    have own := (inv.priv p).still quiet.holding.unheld
    have ready : Ready (σ.setObj (σ.obj.setStatus p (.pending op))) p op :=
      ⟨quiet.holding, Atomic.setStatus_self .., own⟩
    have triple := triple_dbCall admissible plays (quiet.setStatus (.pending op)) ready
    refine Safe.bind ((triple _ (Rely.refl p _) inv').weaken (fun _ _ => id) ?_) ?_ inv'
    · rintro error τ ⟨-, σ', impossible, -⟩
      exact impossible
    · rintro ⟨res, db'⟩ τ ⟨-, σ', answered, relied'⟩
      refine .ret fun τ' passed _ => ?_
      have later := relied'.trans passed
      exact ⟨answered.toBetween.later later, later.status.trans answered.status⟩
  leave {p handle op res σ} answered inv := by
    obtain ⟨inv', relied⟩ := inv.changeStatus answered.holding .idle
    exact ⟨answered.status, σ.setObj (σ.obj.setStatus p .idle), rfl, inv', relied, rfl,
      answered.toBetween.setStatus .idle⟩

end

/-! ## Runs -/

section

variable {scans : ι → Prop} {c c' : DbConfig ι} {d : Layout} {history : List (DbEvent ι)}

/-- Every process has a handle on the database and is in no operation. -/
structure Opened (scans : ι → Prop) (c : DbConfig ι) (d : Layout) : Prop where
  rep : DbRep (c.world.bytes .idx) (c.world.bytes .dat) d
  none : d.lost = []
  unlocked : c.world.locks = []
  idle : ∀ p, ∃ db, c.procs p = .idle (some db) ∧ db.nhash = nhashDef ∧ db.hashoff = hashOff
  cursor : ∀ p, scans p → Boundary d.img (c.world.pos p .idx)

/-- What the index file is at any moment: no record is on two lists, and a list nobody is writing is
in order. -/
structure InOrder (w : World ι File) (d : Layout) : Prop where
  wellFormed : d.img.Ok
  index : w.bytes .idx = d.img.bytes
  once : d.offsets.Nodup
  chains : ∀ h < nhashDef, (∀ p, (p, (Place.chain h).lock .write) ∉ w.locks) →
    Linked d.img.ptrAt (chainOff h) (d.chain h)
  freeList : (∀ p, (p, Place.free.lock .write) ∉ w.locks) → Linked d.img.ptrAt freeOff d.free

omit [DecidableEq ι] in
theorem DbRep.inOrder {w : World ι File} (rep : DbRep (w.bytes .idx) (w.bytes .dat) d) :
    InOrder w d :=
  ⟨rep.wellFormed, rep.index, rep.once, fun h real _ => rep.chains h real, fun _ => rep.freeList⟩

/-- The database before any operation, as an atomic map. -/
def Layout.atomic (d : Layout) : Atomic ι Map Op Res := ⟨d.map, fun _ => .idle⟩

/-- The state explains the configuration. -/
abbrev Explained (scans : ι → Prop) (σ : St ι) (c : DbConfig ι) : Prop :=
  Explains (discipline fullRoom withinLimits) St.obj (Between scans) (Answered scans) σ c

theorem Opened.explained (opened : Opened scans c d) :
    Explained scans (d.state c.world fun _ => .idle) c where
  world := rfl
  inv := opened.rep.coherent opened.unlocked (opened.rep.size_le opened.none) _
  procs p := by
    obtain ⟨db, idle, nhash, hashoff⟩ := opened.idle p
    rw [idle]
    refine ⟨⟨fun l => ?_, ⟨db, rfl, nhash, hashoff⟩, opened.none, opened.cursor p⟩, rfl⟩
    rw [show (d.state c.world fun _ => .idle).w.locks = [] from opened.unlocked]
    simp

/-- Every reachable configuration is explained by a state, and the history by the effects on the
map. -/
theorem Opened.run (opened : Opened scans c d)
    (run : Run (users scans) (Within Limits) c history c') :
    ∃ σ, Explained scans σ c' ∧ Linearizable dbSpec d.atomic history σ.obj :=
  opened.explained.run (implements scans) run

theorem Explained.running {σ : St ι} (explained : Explained scans σ c) (p : ι) (error : Err) :
    c.procs p ≠ .stopped error := by
  intro stopped
  have := explained.procs p
  rw [stopped] at this
  exact this

theorem Explained.inOrder {σ : St ι} (explained : Explained scans σ c) :
    InOrder c.world σ.layout := by
  have inv : Coherent fullRoom σ := explained.inv
  have world : σ.w = c.world := explained.world
  rw [← world]
  exact ⟨inv.img, inv.idx, St.layout_nodup inv.sorted, fun h real unheld =>
    ((inv.chain h real).still unheld).linked,
    fun unheld => (inv.free.still unheld).linked⟩

/-- When every process is between two operations, the files are a database again. -/
theorem Explained.rep {σ : St ι} (explained : Explained scans σ c) [Nonempty ι]
    (idle : ∀ p, ∃ handle, c.procs p = .idle handle) :
    DbRep (c.world.bytes .idx) (c.world.bytes .dat) σ.layout ∧ σ.layout.lost = [] ∧
      σ.layout.map = σ.map := by
  have inv : Coherent fullRoom σ := explained.inv
  have world : σ.w = c.world := explained.world
  have quiet (p : ι) : ∃ handle, Between scans p handle σ := by
    obtain ⟨handle, same⟩ := idle p
    have := explained.procs p
    rw [same] at this
    exact ⟨handle, this.1⟩
  obtain ⟨rep, map⟩ := inv.rep fun p l held => by
    obtain ⟨_, quiet⟩ := quiet p
    cases (quiet.holding l).1 held
  obtain ⟨_, some⟩ := quiet (Classical.arbitrary ι)
  exact ⟨world ▸ rep, some.lost, map⟩

/-- Atomicity: whatever the processes do, every call takes effect at one moment between its start
and its return, on a map from keys to data, no call aborts, and no record is ever on two lists;
between operations the files stand for the map. -/
theorem calls_are_atomic (opened : Opened scans c d)
    (run : Run (users scans) (Within Limits) c history c') :
    (∀ p error, c'.procs p ≠ .stopped error) ∧
      ∃ s d', Linearizable dbSpec d.atomic history s ∧ InOrder c'.world d' ∧
        ((∀ p, ∃ handle, c'.procs p = .idle handle) →
          DbRep (c'.world.bytes .idx) (c'.world.bytes .dat) d' ∧ d'.lost = [] ∧
            d'.map = s.value) := by
  rcases isEmpty_or_nonempty ι with nobody | _
  · -- without a process nothing happens
    cases run with
    | start =>
      exact ⟨nobody.elim, d.atomic, d, .start _ _, opened.rep.inOrder,
        fun _ => ⟨opened.rep, opened.none, rfl⟩⟩
    | @step _ _ _ _ p => exact nobody.elim p
  · obtain ⟨σ, explained, linear⟩ := opened.run run
    exact ⟨explained.running, σ.obj, σ.layout, linear, explained.inOrder, explained.rep⟩

/-- The files of a new database, with every handle just opened. -/
def freshConfig : DbConfig ι :=
  ⟨⟨fun | .idx => emptyTable | .dat => [], fun _ => true, fun _ _ => false,
    fun _ _ => recordsOff, []⟩,
    fun _ => .idle (some {})⟩

omit [DecidableEq ι] in
theorem freshConfig_opened (scans : ι → Prop) : Opened scans freshConfig Layout.empty :=
  ⟨dbRep_empty, rfl, rfl, fun _ => ⟨{}, rfl, rfl, rfl⟩, fun _ _ => .inl rfl⟩

omit [DecidableEq ι] in
theorem freshConfig_within : Within Limits (freshConfig : DbConfig ι) :=
  fun p op request next busy => by cases busy

/-- So many turns of two processes, one after the other. -/
def inTurns (turns : Nat) : List (Bool × Option Op) :=
  (List.replicate turns [(true, none), (false, none)]).flatten

/-- Two processes store records at once, their system calls in turns. -/
theorem calls_are_atomic_stores : ∃ (history : List (DbEvent Bool)) (c : DbConfig Bool) (s : Atomic Bool Map Op Res) (d' : Layout),
    history = [.invoke true (.store [97] [120] .insert), .invoke false (.store [98] [121] .insert),
      .respond true (.store [97] [120] .insert) (.rc 0),
        .respond false (.store [98] [121] .insert) (.rc 0)] ∧
    Run (users fun _ => False) (Within Limits) freshConfig history c ∧
      Linearizable dbSpec Layout.empty.atomic history s ∧
        DbRep (c.world.bytes .idx) (c.world.bytes .dat) d' ∧ d'.map = s.value := by
  have ran : ((freshConfig : DbConfig Bool).follow (users fun _ => False) (Within Limits)
      ((true, some (.store [97] [120] .insert)) :: (false,
        some (.store [98] [121] .insert)) :: inTurns 40)).any
        (fun (history, c) => history = [.invoke true (.store [97] [120] .insert),
          .invoke false (.store [98] [121] .insert),
          .respond true (.store [97] [120] .insert) (.rc 0),
            .respond false (.store [98] [121] .insert) (.rc 0)] ∧
            (c.procs true).isIdle ∧ (c.procs false).isIdle) = true := by
    decide +kernel
  obtain ⟨⟨history, c⟩, follows, same⟩ := (Option.any_eq_true _ _).mp ran
  obtain ⟨rfl, idle₁, idle₂⟩ := of_decide_eq_true same
  have run := Config.follow_run follows freshConfig_within
  obtain ⟨-, s, d', linear, -, resting⟩ := calls_are_atomic (freshConfig_opened _) run
  obtain ⟨rep, -, map⟩ := resting fun p => by
    cases p with
    | true => exact Proc.exists_idle idle₁
    | false => exact Proc.exists_idle idle₂
  exact ⟨_, c, s, d', rfl, run, linear, rep, map⟩

/-! ## What a scan sees -/

theorem update_some {m : Map} {k : Bytes} {v : Option Bytes} {key data : Bytes}
    (bound : Function.update m k v key = some data) :
    (key = k ∧ v = some data) ∨ m key = some data := by
  rw [Function.update_apply] at bound
  split at bound
  case isTrue same => exact .inl ⟨same, bound⟩
  case isFalse => exact .inr bound

theorem mapStore_some {m : Map} {k v : Bytes} {flag : Flag} {key data : Bytes}
    (bound : (mapStore m k v flag).2 key = some data) :
    (key = k ∧ v = data) ∨ m key = some data := by
  have stored (bound : Function.update m k (some v) key = some data) : (key = k ∧ v = data) ∨
      m key = some data :=
    (update_some bound).imp_left fun ⟨same, value⟩ => ⟨same, Option.some.inj value⟩
  cases flag with
  | store => exact stored bound
  | insert =>
    rw [mapStore] at bound
    split at bound
    · exact .inr bound
    · exact stored bound
  | replace =>
    rw [mapStore] at bound
    split at bound
    · exact stored bound
    · exact .inr bound

theorem mapDelete_some {m : Map} {k key data : Bytes} (bound : (mapDelete m k).2 key = some data) :
    m key = some data := by
  rw [mapDelete] at bound
  split at bound
  · rcases update_some bound with ⟨-, impossible⟩ | old
    · cases impossible
    · exact old
  · exact bound

/-- Bindings come from the start or from a store, and an operation in progress has been called. -/
theorem provenance {s : Atomic ι Map Op Res} (linear : Linearizable dbSpec d.atomic history s) :
    (∀ key data, s.value key = some data → d.map key = some data ∨
      ∃ q flag, .invoke q (.store key data flag) ∈ history) ∧
      ∀ q op, s.status q = .pending op → .invoke q op ∈ history := by
  obtain ⟨trace, run, rfl⟩ := linear
  induction run with
  | start => exact ⟨fun key data bound => .inl bound, fun q op pending => by cases pending⟩
  | @step s₁ s₂ trace mark earlier last inductionHypothesis =>
    obtain ⟨bindings, pendings⟩ := inductionHypothesis
    have longer {e : DbEvent ι} (member : e ∈ visible trace) : e ∈ visible (trace ++ [mark]) := by
      rw [visible, List.filterMap_append]
      exact List.mem_append_left _ member
    have old (key data : Bytes) (bound : s₁.value key = some data) :
        d.map key = some data ∨ ∃ q flag, .invoke q (.store key data flag) ∈
          visible (trace ++ [mark]) :=
      (bindings key data bound).imp_right (Exists.imp fun _ => Exists.imp fun _ => longer)
    cases last with
    | @invoke p op idle =>
      refine ⟨old, fun q op' pending => ?_⟩
      by_cases same : q = p
      · subst same
        rw [Atomic.setStatus_self] at pending
        cases pending
        simp [visible]
      · rw [Atomic.setStatus_other _ _ same] at pending
        exact longer (pendings q op' pending)
    | @effect p op res value pending allowed =>
      refine ⟨fun key data bound => ?_, fun q op' pending' => ?_⟩
      · change value key = some data at bound
        -- only a store binds a key
        cases op with
        | store k v flag =>
          have changed : value = (mapStore s₁.value k v flag).2 := allowed.2
          rw [changed] at bound
          rcases mapStore_some bound with ⟨rfl, rfl⟩ | before
          · exact .inr ⟨p, flag, longer (pendings p _ pending)⟩
          · exact old key data before
        | delete k =>
          have changed : value = (mapDelete s₁.value k).2 := allowed.2
          rw [changed] at bound
          exact old key data (mapDelete_some bound)
        | fetch k => exact old key data (allowed.2 ▸ bound)
        | rewind => exact old key data (allowed.2 ▸ bound)
        | nextrec => exact old key data (allowed.1 ▸ bound)
        | «open» oflag => exact allowed.elim
      · by_cases same : q = p
        · subst same
          rw [Atomic.setStatus_self] at pending'
          cases pending'
        · rw [Atomic.setStatus_other _ _ same] at pending'
          exact longer (pendings q op' pending')
    | @respond p op res done =>
      refine ⟨old, fun q op' pending => ?_⟩
      by_cases same : q = p
      · subst same
        rw [Atomic.setStatus_self] at pending
        cases pending
      · rw [Atomic.setStatus_other _ _ same] at pending
        exact longer (pendings q op' pending)

/-- A scan returns keys with their data: the pair was stored by one call, or was there before, and
at some moment of the scan it was bound or being stored.  The scan does not abort. -/
theorem scan_pairs_are_stored (opened : Opened scans c d)
    (run : Run (users scans) (Within Limits) c history c') :
    (∀ p error, c'.procs p ≠ .stopped error) ∧
      ∀ p key data earlier later, history = earlier ++
        .respond p .nextrec (.record (some (key, data))) :: later →
        (d.map key = some data ∨ ∃ q flag, .invoke q (.store key data flag) ∈ earlier) ∧
        ∃ before first rest s, Called p .nextrec before (first ++ rest) earlier ∧
          Linearizable dbSpec d.atomic (before ++ .invoke p .nextrec :: first) s ∧
          (s.value key = some data ∨ ∃ q flag, s.status q = .pending (.store key data flag)) := by
  obtain ⟨σ, explained, linear⟩ := opened.run run
  refine ⟨explained.running, ?_⟩
  rintro p key data earlier later rfl
  obtain ⟨before, first, rest, s, value, called, earlierLinear, -, -, record, same, allowed⟩ :=
    linear.took_effect rfl
  cases same
  have seen := allowed key data rfl
  refine ⟨?_, before, first, rest, s, called, earlierLinear, seen⟩
  obtain ⟨bindings, pendings⟩ := provenance earlierLinear
  have longer {e : DbEvent ι} (member : e ∈ before ++ .invoke p .nextrec :: first) :
      e ∈ earlier := by
    rw [called.1, ← List.cons_append, ← List.append_assoc]
    exact List.mem_append_left _ member
  rcases seen with bound | ⟨q, flag, pending⟩
  · exact (bindings key data bound).imp_right (Exists.imp fun _ => Exists.imp fun _ => longer)
  · exact .inr ⟨q, flag, longer (pendings q _ pending)⟩

/-- A record is scanned while another process deletes it. -/
theorem scan_pairs_are_stored_deleted : ∃ (earlier later : List (DbEvent Bool)) (c : DbConfig Bool),
    Run (users fun p => p = true) (Within Limits) freshConfig
      (earlier ++ .respond true .nextrec (.record (some ([97], [120]))) :: later) c ∧
      Event.invoke false (.delete [97]) ∈ earlier ∧
        Event.respond false (.delete [97]) (.rc 0) ∈ later ∧
        (∃ q flag, Event.invoke q (.store [97] [120] flag) ∈ earlier) ∧
          ∃ before first rest s, Called true .nextrec before (first ++ rest) earlier ∧
            Linearizable dbSpec Layout.empty.atomic (before ++ .invoke true .nextrec :: first) s ∧
            (s.value [97] = some [120] ∨
              ∃ q flag, s.status q = .pending (.store [97] [120] flag)) := by
  have ran : ((freshConfig : DbConfig Bool).follow (users fun p => p = true) (Within Limits)
      ((false, some (.store [97] [120] .insert)) :: inTurns 24 ++
        (true, some .nextrec) :: (false, some (.delete [97])) :: inTurns 40)).any
        (fun (history, _) => history = [.invoke false (.store [97] [120] .insert),
          .respond false (.store [97] [120] .insert) (.rc 0),
          .invoke true .nextrec, .invoke false (.delete [97])] ++ .respond true .nextrec
            (.record (some ([97], [120]))) ::
            [.respond false (.delete [97]) (.rc 0)]) = true := by
    decide +kernel
  obtain ⟨⟨history, c⟩, follows, same⟩ := (Option.any_eq_true _ _).mp ran
  obtain rfl := of_decide_eq_true same
  have run := Config.follow_run follows freshConfig_within
  obtain ⟨impossible | stored, moment⟩ :=
    (scan_pairs_are_stored (freshConfig_opened _) run).2 true [97] [120] _ _ rfl
  · cases impossible
  exact ⟨_, _, c, run, by simp, by simp, stored, moment⟩

end

end Apue.Db
