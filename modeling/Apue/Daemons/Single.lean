import Apue.Base.Upheld
import Apue.Printer.Network

/-! # One daemon at a time

`already_running` opens the file with the process ID, asks for a write lock on all of it without
waiting, and if it gets the lock empties the file and writes its process ID there; the descriptor
stays open, and the lock with it, until the process ends.  `daemons/init.c` has a copy that also
asks who holds the lock.  Any number of processes do this, each as often as it likes, and any of
them may be killed between two of its system calls.  What `ftruncate` and `write` return is not
looked at, so the lock does not depend on them, but what the file holds does.
-/

namespace Apue.Daemons

open Apue.Base
open Apue.Printer (Errno)

/-! ## The system -/

/-- The system calls, all on the one file; a length of 0 in a lock reaches to the end of file. -/
inductive PidCall where
  /-- `open(LOCKFILE, O_RDWR|O_CREAT, LOCKMODE)` -/
  | openFile
  | setlk (type : LockType) (start len : Nat)
  | getlk (type : LockType) (start len : Nat)
  | close
  | ftruncate (length : Nat)
  | getpid
  | write (buffer : Bytes)

/-- `open` and `ftruncate` say whether they succeeded; `F_GETLK` gives the process ID of one that
holds a lock in the way. -/
def PidCall.Answer : PidCall → Type
  | .openFile => Bool
  | .setlk .. => Except Errno Unit
  | .getlk .. => Option Nat
  | .close => Unit
  | .ftruncate _ => Bool
  | .getpid => Nat
  | .write _ => Option Nat

abbrev PidSig : Signature := ⟨PidCall, PidCall.Answer⟩

def eacces : Errno := ⟨13, by decide⟩

def eagain : Errno := ⟨11, by decide⟩

/-- What the system gives a process, and how it refuses a lock; other failures of `F_SETLK` are the
process's own. -/
structure Host (ι : Type) where
  pid : ι → Nat
  small : ∀ p, pid p < 2 ^ 31
  conflict : Errno
  isConflict : conflict = eacces ∨ conflict = eagain
  lockFails : ι → Option Errno
  otherwise : ∀ p errno, lockFails p = some errno → errno ≠ eacces ∧ errno ≠ eagain
  truncates : ι → Bool
  /-- The most bytes that a `write` moves, if it does not fail. -/
  writes : ι → Option Nat

variable {ι : Type} [DecidableEq ι]

/-- The file is the only one. -/
def pidKernel (host : Host ι) (p : ι) : Kernel PidSig (World ι Unit)
  | .openFile, w => fileKernel p (.openFile () true false) w
  | .setlk type start len, w =>
    let lock : Lock Unit := ⟨(), type, .ofLen start len⟩
    match host.lockFails p with
    | some errno => some (.error errno, w)
    | none =>
      if w.locks.blocked p lock then some (.error host.conflict, w)
      else some (.ok (), { w with locks := w.locks.acquire p lock })
  | .getlk type start len, w =>
    let lock : Lock Unit := ⟨(), type, .ofLen start len⟩
    some ((w.locks.find? fun (q, l) => q ≠ p && lock.conflicts l).map fun (q, _) => host.pid q, w)
  | .close, w => fileKernel p (.close ()) w
  | .ftruncate length, w =>
    if host.truncates p then
      some (true, w.setBytes () ((w.bytes ()).take length ++
        List.replicate (length - (w.bytes ()).length) 0))
    else some (false, w)
  | .getpid, w => some (host.pid p, w)
  | .write buffer, w =>
    match host.writes p with
    | none => some (none, w)
    | some most =>
      (fileKernel p (.write () (buffer.take most)) w).map fun (count, w') => (some count, w')

/-! ## The code -/

inductive Err where
  /-- `exit(1)` after "can't open %s: %s", "can't lock %s: %s". -/
  | cantOpen
  | cantLock (errno : Errno)
  deriving DecidableEq, Repr

/-- The structure of a process is whether `already_running` has returned 0 to it. -/
abbrev DaemonM := Code PidSig Err Bool

def sys (c : PidCall) : DaemonM c.Answer := Code.call (S := PidSig) c

def lockfile : DaemonM (Except Errno Unit) := sys (.setlk .write 0 0)

/-- `lock_test(fd, type, start, SEEK_SET, len)` of `daemons/init.c`: a process ID, or 0. -/
def lockTest (type : LockType) (start len : Nat) : DaemonM Nat := do
  let locker : Option Nat ← sys (.getlk type start len)
  return locker.getD 0

/-- `already_running`, with what it does about a lock that it does not get. -/
def alreadyRunningWith (refused : DaemonM Unit) : DaemonM Int := do
  let opened : Bool ← sys .openFile
  if !opened then Code.abort .cantOpen
  else
    match ← lockfile with
    | .error errno =>
      if errno = eacces ∨ errno = eagain then
        refused
        let _ : Unit ← sys .close
        return 1
      else Code.abort (.cantLock errno)
    | .ok _ =>
      let _ : Bool ← sys (.ftruncate 0)
      let pid : Nat ← sys .getpid
      let _ : Option Nat ← sys (.write (decimal pid ++ [0]))
      return 0

/-- The two copies. -/
inductive Version where
  | single
  | init
  deriving DecidableEq, Repr

def alreadyRunning : Version → DaemonM Int
  | .single => alreadyRunningWith (pure ())
  | .init => alreadyRunningWith (do let _ ← lockTest .write 0 0)

/-- The processes, with a call of `already_running` as their only operation. -/
def daemons (host : Host ι) (version : Version) :
    System ι PidSig Err (World ι Unit) Unit Bool Int where
  kernel := pidKernel host
  exit p w := w.exit p
  code _ := show DaemonM Int from do
    let rc ← alreadyRunning version
    modify fun _ => decide (rc = 0)
    return rc
  may _ _ _ := True

/-! ## The lock -/

/-- What `lockfile` asks for. -/
def whole : Lock Unit := ⟨(), .write, .ofLen 0 0⟩

def Holds (w : World ι Unit) (p : ι) : Prop := (p, whole) ∈ w.locks

/-- There is no other lock, and one process at most has it. -/
structure Sole (w : World ι Unit) : Prop where
  lock : ∀ p l, (p, l) ∈ w.locks → l = whole
  one : ∀ p q, Holds w p → Holds w q → p = q

section

variable {w w' w'' : World ι Unit} {p q : ι} {l : Lock Unit}

theorem Sole.blocked_iff (sole : Sole w) :
    w.locks.blocked p whole = true ↔ ∃ q, Holds w q ∧ q ≠ p := by
  rw [Locks.blocked_iff]
  constructor
  · rintro ⟨q, l, held, other, -⟩
    rw [sole.lock q l held] at held
    exact ⟨q, held, other⟩
  · rintro ⟨q, held, other⟩
    exact ⟨q, whole, held, other, by decide⟩

/-- Whoever is granted the lock is the only one with a lock. -/
theorem Sole.mem_acquire (sole : Sole w) (granted : w.locks.blocked p whole = false) :
    (q, l) ∈ w.locks.acquire p whole ↔ q = p ∧ l = whole := by
  rw [Locks.acquire, List.mem_cons, Prod.mk.injEq]
  refine ⟨fun held => held.resolve_right fun old => ?_, .inl⟩
  by_cases same : q = p
  · subst same
    have covers (m : Lock Unit) (held : (q, m) ∈ w.locks) : m.range = whole.range := by
      rw [sole.lock q m held]
    obtain ⟨held, kept⟩ :=
      (Locks.mem_release_self (Range.ofLen_overlaps_self 0 0) fun m held _ _ => covers m held).1 old
    exact kept ⟨rfl, covers l held⟩
  · have held := (Locks.mem_release_other same).1 old
    rw [sole.lock q l held] at held
    exact absurd (sole.blocked_iff.2 ⟨q, held, same⟩) (by simp [granted])

theorem Sole.acquire (sole : Sole w) (granted : w.locks.blocked p whole = false) :
    Sole { w with locks := w.locks.acquire p whole } where
  lock _ _ held := ((sole.mem_acquire granted).1 held).2
  one _ _ heldQ heldR :=
    ((sole.mem_acquire granted).1 heldQ).1.trans ((sole.mem_acquire granted).1 heldR).1.symm

theorem holds_releaseFile : (q, l) ∈ w.locks.releaseFile p () ↔ (q, l) ∈ w.locks ∧ q ≠ p := by
  simp [Locks.releaseFile]

theorem holds_releaseAll : (q, l) ∈ w.locks.releaseAll p ↔ (q, l) ∈ w.locks ∧ q ≠ p := by
  simp [Locks.releaseAll]

omit [DecidableEq ι] in
theorem Sole.sub (sole : Sole w) (fewer : ∀ q l, (q, l) ∈ w'.locks → (q, l) ∈ w.locks) :
    Sole w' where
  lock q l held := sole.lock q l (fewer q l held)
  one q r heldQ heldR := sole.one q r (fewer q whole heldQ) (fewer r whole heldR)

/-- What a process finds as it left it: its lock, its file offset, and the file as long as it has
the lock. -/
structure Rely (p : ι) (w w' : World ι Unit) : Prop where
  locks : Holds w' p ↔ Holds w p
  pos : w'.pos p = w.pos p
  bytes : Holds w p → w'.bytes = w.bytes

omit [DecidableEq ι] in
theorem Rely.refl (p : ι) (w : World ι Unit) : Rely p w w := ⟨.rfl, rfl, fun _ => rfl⟩

omit [DecidableEq ι] in
theorem Rely.trans (first : Rely p w w') (second : Rely p w' w'') : Rely p w w'' where
  locks := second.locks.trans first.locks
  pos := second.pos.trans first.pos
  bytes held := (second.bytes (first.locks.2 held)).trans (first.bytes held)

def discipline (host : Host ι) : Discipline ι PidSig (World ι Unit) (World ι Unit) where
  kernel := pidKernel host
  world := id
  inv := Sole
  rely := Rely
  guar p w w' := ∀ q, q ≠ p → Rely q w w'
  env _ _ _ := True
  rely_refl := Rely.refl
  rely_trans := Rely.trans
  guar_rely _ guarantees other := guarantees _ other

omit [DecidableEq ι] in
/-- A call that touches no lock and, unless its process has the lock, no byte. -/
theorem rely_others (locks : w'.locks = w.locks) (pos : ∀ q, q ≠ p → w'.pos q = w.pos q)
    (sole : Sole w)
    (bytes : w'.bytes = w.bytes ∨ Holds w p) : ∀ q, q ≠ p → Rely q w w' := by
  intro q other
  refine ⟨by rw [Holds, locks]; rfl, pos q other, fun held => ?_⟩
  obtain same | own := bytes
  · exact same
  · exact absurd (sole.one q p held own) other

end

/-! ## The code, call by call -/

section Triples

variable {host : Host ι} {p : ι} {σ : World ι Unit} {l : Bool} {E : Err → World ι Unit → Prop}

/-- The process ID as it stands in the file. -/
def pidText (host : Host ι) (p : ι) : Bytes := decimal (host.pid p) ++ [0]

/-- `ftruncate` and `write` do for the process what they are asked. -/
def Host.Records (host : Host ι) (p : ι) : Prop :=
  host.truncates p = true ∧ ∃ most, host.writes p = some most ∧ (pidText host p).length ≤ most

/-- The process has the lock, and the file its ID if it could be written. -/
def Instance (host : Host ι) (w : World ι Unit) (p : ι) : Prop :=
  Holds w p ∧ (host.Records p → w.bytes () = pidText host p)

/-- One system call: what it must leave to the others, and what it leaves the process with. -/
theorem triple_sys {c : PidCall} {post : c.Answer → Bool → World ι Unit → Prop}
    (step : ∀ τ, Rely p σ τ → Sole τ → ∀ answer w, pidKernel host p c τ = some (answer, w) →
      (∀ q, q ≠ p → Rely q τ w) ∧ Sole w ∧ post answer l w) :
        Triple (discipline host) p E σ (sys c) l post := by
  refine Triple.call (S := PidSig) fun τ relied sole _ answer w answers => ?_
  obtain ⟨others, sole', holds⟩ := step τ relied sole answer w answers
  exact ⟨w, w, rfl, others, sole', .refl p w, holds⟩

theorem triple_openFile : Triple (discipline host) p E σ (sys .openFile) l
    fun (opened : Bool) _ w => opened = true → w.pos p () = 0 := by
  refine triple_sys fun τ _ sole opened w answers => ?_
  change fileKernel p (.openFile () true false) τ = some (opened, w) at answers
  rw [fileKernel] at answers
  split at answers
  · cases answers
    exact ⟨fun q _ => .refl q τ, sole, by simp⟩
  · cases answers
    refine ⟨rely_others rfl (fun q other => by simp [World.setPos, World.setBytes, other]) sole
      (.inl ?_), sole.sub fun _ _ => id,
      fun _ => by simp [World.setPos]⟩
    exact Function.update_eq_self () τ.bytes

theorem triple_lockfile (start : σ.pos p () = 0) : Triple (discipline host) p E σ lockfile l
    fun answer _ w => ∀ value, answer = .ok value → Holds w p ∧ w.pos p () = 0 := by
  refine triple_sys fun τ relied sole answer w answers => ?_
  change pidKernel host p (.setlk .write 0 0) τ = some (answer, w) at answers
  simp only [pidKernel] at answers
  split at answers
  · cases answers
    exact ⟨fun q _ => .refl q τ, sole, by simp⟩
  · split at answers
    · cases answers
      exact ⟨fun q _ => .refl q τ, sole, by simp⟩
    · rename_i granted
      replace granted : τ.locks.blocked p whole = false := Bool.not_eq_true _ ▸ granted
      cases answers
      refine ⟨fun q other => ⟨?_, rfl, fun _ => rfl⟩, sole.acquire granted, fun _ _ => ⟨?_, ?_⟩⟩
      · -- nobody else had it, and nobody else has it
        constructor
        · intro held
          exact absurd ((sole.mem_acquire granted).1 held).1 other
        · intro held
          exact absurd (sole.blocked_iff.2 ⟨q, held, other⟩) (by simp [granted])
      · exact (sole.mem_acquire granted).2 ⟨rfl, rfl⟩
      · exact (congrFun relied.pos ()).trans start

theorem triple_close : Triple (discipline host) p E σ (sys .close) l fun _ _ w => ¬Holds w p := by
  refine triple_sys fun τ _ sole answer w answers => ?_
  change fileKernel p (.close ()) τ = some (answer, w) at answers
  cases answers
  refine ⟨fun q other => ⟨?_, rfl, fun _ => rfl⟩, sole.sub fun _ _ held =>
    (holds_releaseFile.1 held).1, ?_⟩
  · exact holds_releaseFile.trans (and_iff_left other)
  · exact fun held => (holds_releaseFile.1 held).2 rfl

theorem triple_ftruncate (held : Holds σ p) (start : σ.pos p () = 0) :
    Triple (discipline host) p E σ (sys (.ftruncate 0)) l
    fun _ _ w => Holds w p ∧ w.pos p () = 0 ∧ (host.truncates p = true → w.bytes () = []) := by
  refine triple_sys fun τ relied sole answer w answers => ?_
  have own := relied.locks.2 held
  have offset : τ.pos p () = 0 := (congrFun relied.pos ()).trans start
  simp only [pidKernel] at answers
  split at answers
  · cases answers
    exact ⟨rely_others rfl (fun _ _ => rfl) sole (.inr own), sole.sub fun _ _ => id, own, offset,
      fun _ => by simp [World.setBytes]⟩
  · rename_i fails
    cases answers
    exact ⟨fun q _ => .refl q τ, sole, own, offset, fun succeeds => absurd succeeds fails⟩

theorem triple_getpid {P : Prop} (held : Holds σ p) (start : σ.pos p () = 0)
    (empty : P → σ.bytes () = []) :
    Triple (discipline host) p E σ (sys .getpid) l
      fun (pid : Nat) _ w => pid = host.pid p ∧ Holds w p ∧ w.pos p () = 0 ∧
        (P → w.bytes () = []) := by
  refine triple_sys fun τ relied sole answer w answers => ?_
  cases answers
  refine ⟨fun q _ => .refl q τ, sole, rfl, relied.locks.2 held,
    (congrFun relied.pos ()).trans start, fun holds => ?_⟩
  exact (congrFun (relied.bytes held) ()).trans (empty holds)

omit [DecidableEq ι] in
theorem pidText_short (host : Host ι) (p : ι) : (pidText host p).length ≤ 16 := by
  have digits : (decimal (host.pid p)).length ≤ 10 :=
    (decimal_length_le (by decide)).2 (Nat.lt_trans (host.small p) (by decide))
  simp only [pidText, List.length_append, List.length_cons, List.length_nil]
  omega

theorem triple_write (held : Holds σ p) (start : σ.pos p () = 0)
    (empty : host.truncates p = true → σ.bytes () = []) :
    Triple (discipline host) p E σ (sys (.write (pidText host p))) l fun _ _ w =>
      Instance host w p := by
  refine triple_sys fun τ relied sole answer w answers => ?_
  have own := relied.locks.2 held
  simp only [pidKernel] at answers
  split at answers
  · rename_i fails
    cases answers
    refine ⟨fun q _ => .refl q τ, sole, own, ?_⟩
    rintro ⟨-, most, writes, -⟩
    rw [fails] at writes
    cases writes
  · rename_i most writes
    cases answers
    refine ⟨rely_others rfl (fun q other => by simp [World.setPos, World.setBytes, other]) sole
      (.inr own),
      sole.sub fun _ _ => id, own, ?_⟩
    rintro ⟨truncates, _, room, fits⟩
    cases writes.symm.trans room
    have complete : ((pidText host p).take most).take writeMax = pidText host p := by
      rw [List.take_of_length_le fits]
      exact List.take_of_length_le (Nat.le_trans (pidText_short host p) (by decide))
    have there : τ.bytes () = [] := (congrFun (relied.bytes held) ()).trans (empty truncates)
    have offset : τ.pos p () = 0 := (congrFun relied.pos ()).trans start
    simp [World.setPos, World.setBytes, complete, there, offset, writeAt]

theorem triple_lockTest (type : LockType) (start len : Nat) :
    Triple (discipline host) p E σ (lockTest type start len) l fun _ _ _ => True := by
  refine .bind (M := fun _ _ _ => True) (triple_sys fun τ _ sole answer w answers =>
    ?_) fun _ _ _ _ => .pure trivial
  cases answers
  exact ⟨fun q _ => .refl q τ, sole, trivial⟩

/-- The process has become the daemon, or holds no lock. -/
theorem triple_alreadyRunningWith {refused : DaemonM Unit}
    (asks : ∀ w l, Triple (discipline host) p E w refused l fun _ _ _ => True)
    (aborts : ∀ error w, E error w) : Triple (discipline host) p E σ (alreadyRunningWith refused) l
      fun rc _ w => rc = 0 ∧ Instance host w p ∨ rc = 1 ∧ ¬Holds w p := by
  refine .bind triple_openFile fun opened _ w start => ?_
  cases opened with
  | false => exact .abort (aborts ..)
  | true =>
    refine .bind (triple_lockfile (start rfl)) fun answer _ w granted => ?_
    cases answer with
    | error errno =>
      dsimp only
      split
      · exact .bind (asks _ _) fun _ _ _ _ => .bind triple_close fun _ _ _ free =>
          .pure (.inr ⟨rfl, free⟩)
      · exact .abort (aborts ..)
    | ok value =>
      obtain ⟨held, start⟩ := granted value rfl
      refine .bind (triple_ftruncate held start) ?_
      rintro - - w ⟨held, start, empty⟩
      refine .bind (triple_getpid held start empty) ?_
      rintro - - w ⟨rfl, held, start, empty⟩
      exact .bind (triple_write held start empty) fun _ _ _ instanced =>
        .pure (.inl ⟨rfl, instanced⟩)

theorem triple_alreadyRunning (version : Version) (aborts : ∀ error w, E error w) :
    Triple (discipline host) p E σ (alreadyRunning version) l fun rc _ w => rc = 0 ∧
      Instance host w p ∨ rc = 1 ∧ ¬Holds w p := by
  cases version with
  | single => exact triple_alreadyRunningWith (fun _ _ => .pure trivial) aborts
  | init =>
    exact triple_alreadyRunningWith (fun _ _ => .bind (triple_lockTest _ _ _) fun _ _ _ _ =>
      .pure trivial) aborts

end Triples

/-! ## Any number of processes -/

/-- What holds of a process between its calls: it is the daemon, or holds no lock. -/
def Quiet (host : Host ι) (p : ι) (running : Bool) (w : World ι Unit) : Prop :=
  if running then Instance host w p else ¬Holds w p

omit [DecidableEq ι] in
theorem Quiet.later {host : Host ι} {p : ι} {running : Bool} {w w' : World ι Unit}
    (quiet : Quiet host p running w)
    (relied : Rely p w w') : Quiet host p running w' := by
  cases running with
  | false => exact fun held => quiet (relied.locks.1 held)
  | true =>
    obtain ⟨held, text⟩ := quiet
    exact ⟨relied.locks.2 held,
      fun records => (congrFun (relied.bytes held) ()).trans (text records)⟩

theorem upholds (host : Host ι) (version : Version) :
    Upholds (daemons host version) (discipline host) (Quiet host)
    (fun p _ result w => Quiet host p result.2 w) fun p w => ¬Holds w p where
  kernel := rfl
  given _ _ _ := trivial
  enter {p l _ σ} _ sole _ := by
    have triple : Triple (discipline host) p (fun _ _ => True) σ
        (alreadyRunning version >>= fun rc => do
        modify fun _ => decide (rc = 0)
        return rc) l fun _ running w => Quiet host p running w := by
      refine .bind (triple_alreadyRunning version fun _ _ => trivial) ?_
      rintro rc - w (⟨rfl, instanced⟩ | ⟨rfl, free⟩)
      · exact .modifyThen (.pure instanced)
      · exact .modifyThen (.pure free)
    refine (triple σ (.refl p σ) sole).weaken ?_ fun _ _ _ => trivial
    rintro ⟨_, running⟩ w ⟨-, σ', quiet, relied⟩
    exact quiet.later relied
  leave quiet _ := quiet
  later relied quiet := quiet.later relied
  past relied free held := free (relied.locks.1 held)
  ends p w sole := by
    refine ⟨w.exit p, rfl, sole.sub fun _ _ held => (holds_releaseAll.1 held).1,
      fun q other => ⟨?_, rfl, fun _ => rfl⟩, ?_⟩
    · exact holds_releaseAll.trans (and_iff_left other)
    · exact fun held => (holds_releaseAll.1 held).2 rfl

/-- The processes, those that have been killed, and nothing that they leave behind. -/
abbrev DaemonScene (ι : Type) := Scene ι PidSig Err (World ι Unit) Unit Bool Int Unit

/-- A run of the processes in which any of them may be killed at any time. -/
abbrev DaemonRun (host : Host ι) (version : Version) :
    DaemonScene ι → List (Event ι Err Unit Int) → DaemonScene ι → Prop :=
  CrashRun (daemons host version) ⟨fun _ _ _ => (), fun _ _ => True⟩ fun _ _ _ _ => True

/-- No process has called `already_running` yet. -/
def atBoot (w : World ι Unit) : DaemonScene ι := ⟨⟨w, fun _ => .idle false⟩, [], ()⟩

/-- The process is alive and outside `already_running`, and its last call has returned 0. -/
def Running (s : DaemonScene ι) (p : ι) : Prop := p ∉ s.dead ∧ s.config.procs p = .idle true

/-- Nobody alive is inside `already_running`. -/
def Resting (s : DaemonScene ι) : Prop := ∀ p ∉ s.dead, ∀ op rest, s.config.procs p ≠ .busy op rest

section

variable {host : Host ι} {version : Version} {w : World ι Unit}
    {history : List (Event ι Err Unit Int)} {s : DaemonScene ι} {p : ι}

theorem upheld_of_run (unlocked : w.locks = [])
    (run : DaemonRun host version (atBoot w) history s) :
    Upheld (discipline host) (Quiet host) (fun p _ result w => Quiet host p result.2 w)
      (fun p w => ¬Holds w p)
      s.config.world s := by
  have free (p : ι) : ¬Holds w p := by simp [Holds, unlocked]
  have start : Upheld (discipline host) (Quiet host) (fun p _ result w => Quiet host p result.2 w)
      (fun p w => ¬Holds w p) w
      (atBoot w) := ⟨rfl, ⟨by simp [unlocked], fun p _ held => absurd held (free p)⟩,
        fun p _ => free p, by simp [atBoot]⟩
  obtain ⟨w', upheld⟩ := run.upheld (upholds host version) start
  obtain rfl : w' = s.config.world := upheld.world
  exact upheld

/-- Whatever processes are started, and whichever of them are killed at whatever moment: one at most
is the daemon, and the file has its process ID if that could be written. -/
theorem one_instance (unlocked : w.locks = []) (run : DaemonRun host version (atBoot w) history s)
    (runs : Running s p) :
    (host.Records p → s.config.world.bytes () = pidText host p) ∧ ∀ q, Running s q → q = p := by
  have upheld := upheld_of_run unlocked run
  have here {q : ι} (runs : Running s q) : Instance host s.config.world q := by
    have holding := upheld.alive q runs.1
    rwa [runs.2] at holding
  exact ⟨(here runs).2, fun q others => upheld.inv.one q p (here others).1 (here runs).1⟩

/-- Two processes, and a system that reports a lock in the way as `EAGAIN`. -/
def twoProcesses : Host Bool where
  pid p := if p then 120 else 7
  small p := by cases p <;> decide
  conflict := eagain
  isConflict := .inr rfl
  lockFails _ := none
  otherwise _ _ fails := by cases fails
  truncates _ := true
  writes _ := some 16

theorem twoProcesses_records (p : Bool) : twoProcesses.Records p := by
  refine ⟨rfl, 16, rfl, ?_⟩
  cases p <;> decide

/-- The first process becomes the daemon, and the second is refused. -/
theorem second_refused : ∃ history s, DaemonRun twoProcesses .single (atBoot .absent) history s ∧
    history = [.invoke true (), .respond true () 0, .invoke false (), .respond false () 1] ∧
      Running s true ∧ s.dead = [] ∧
      s.config.procs false = .idle false ∧ s.config.world.denied false () = false := by
  let boot : DaemonScene Bool := atBoot .absent
  have done : ∃ w₁ w₂,
      Exec (pidKernel twoProcesses true) ((daemons twoProcesses .single).code () false)
      boot.config.world
      (.returned (0, true)) w₁ ∧
        Exec (pidKernel twoProcesses false) ((daemons twoProcesses .single).code () false) w₁
      (.returned (1, false)) w₂ ∧ w₂.denied false () = false :=
    ⟨_, _, exec_sound (show exec _ 20 _ _ = _ from rfl),
      exec_sound (show exec _ 20 _ _ = _ from rfl), rfl⟩
  obtain ⟨w₁, w₂, becomes, refused, opens⟩ := done
  have first : DaemonRun twoProcesses .single boot _ _ :=
    (CrashRun.start boot).returns (by simp [boot, atBoot]) rfl trivial
    becomes fun _ _ => ⟨trivial, trivial⟩
  have second : DaemonRun twoProcesses .single boot _ _ :=
    first.returns (p := false) (by simp [boot, atBoot]) (Config.setProc_other _ _ (by decide))
    trivial refused
    fun _ _ => ⟨trivial, trivial⟩
  refine ⟨_, _, second, rfl, ⟨by simp [boot, atBoot], ?_⟩, rfl, Config.setProc_self .., opens⟩
  -- the second call has left the first process where it was
  simp [Config.setProc]

theorem one_instance_refused :
    ∃ history s, DaemonRun twoProcesses .single (atBoot .absent) history s ∧
    history = [.invoke true (), .respond true () 0, .invoke false (), .respond false () 1] ∧
      Running s true ∧
    s.config.world.bytes () = [49, 50, 48, 0] ∧ ∀ q, Running s q → q = true := by
  obtain ⟨history, s, run, called, runs, -⟩ := second_refused
  obtain ⟨text, alone⟩ := one_instance rfl run runs
  exact ⟨history, s, run, called, runs, text (twoProcesses_records true), alone⟩

/-! ## The next process -/

theorem exec_sys {c : PidCall} {answer : c.Answer} {running : Bool} {w w' : World ι Unit}
    (answers : pidKernel host p c w = some (answer, w')) :
    Exec (pidKernel host p) (sys c running) w (.returned (answer, running)) w' :=
  .call answers (.ret _ _)

theorem pidKernel_moves (c : PidCall) (w : World ι Unit) : (pidKernel host p c w).isSome := by
  cases c with
  | openFile =>
    change (fileKernel p (.openFile () true false) w).isSome
    simp only [fileKernel]
    split <;> rfl
  | setlk type start len =>
    simp only [pidKernel]
    split
    · rfl
    · split <;> rfl
  | ftruncate length =>
    simp only [pidKernel]
    split <;> rfl
  | write buffer =>
    simp only [pidKernel]
    split <;> rfl
  | _ => rfl

variable (host) in
theorem pidKernel_answers (c : PidCall) (w : World ι Unit) :
    ∃ answer w', pidKernel host p c w = some (answer, w') := by
  obtain ⟨⟨answer, w'⟩, answers⟩ := Option.isSome_iff_exists.1 (pidKernel_moves c w)
  exact ⟨answer, w', answers⟩

variable (host) in
theorem openFile_answers (opens : w.denied p () = false) :
    ∃ w', pidKernel host p .openFile w = some (true, w') ∧ w'.locks = w.locks := by
  refine ⟨_, if_neg ?_, rfl⟩
  simp [opens]

theorem exec_lockfile (running : Bool) (w : World ι Unit) (works : host.lockFails p = none) :
    ∃ answer w', Exec (pidKernel host p) (lockfile running) w (.returned (answer, running)) w' ∧
      answer = if w.locks.blocked p whole then .error host.conflict else .ok () := by
  by_cases refused : w.locks.blocked p whole
  · have answers : pidKernel host p (.setlk .write 0 0) w = some (.error host.conflict, w) := by
      simp only [pidKernel, works]
      exact if_pos refused
    exact ⟨_, w, exec_sys answers, (if_pos refused).symm⟩
  · have answers : pidKernel host p (.setlk .write 0 0) w =
        some (.ok (), { w with locks := w.locks.acquire p whole }) := by
      simp only [pidKernel, works]
      exact if_neg refused
    exact ⟨_, _, exec_sys answers, (if_neg refused).symm⟩

variable (host) in
/-- Where `open` and the lock do not fail, `already_running` returns at once, and a lock in its way
decides what. -/
theorem exec_alreadyRunning (version : Version) (opens : w.denied p () = false)
    (works : host.lockFails p = none) (running : Bool) :
    ∃ w', Exec (pidKernel host p) (alreadyRunning version running) w
      (.returned (if w.locks.blocked p whole then 1 else 0, running)) w' := by
  obtain ⟨w₁, opened, locks⟩ := openFile_answers host opens
  obtain ⟨answer, w₂, asked, isAnswer⟩ := exec_lockfile running w₁ works
  rw [locks] at isAnswer
  have run (refused : DaemonM Unit) (asks : ∀ w, ∃ w', Exec (pidKernel host p) (refused running) w
      (.returned ((), running)) w') :
      ∃ w', Exec (pidKernel host p) (alreadyRunningWith refused running) w
        (.returned (if w.locks.blocked p whole then 1 else 0, running)) w' := by
    by_cases taken : w.locks.blocked p whole
    · rw [if_pos taken] at isAnswer ⊢
      subst isAnswer
      obtain ⟨w₃, asks⟩ := asks w₂
      let gives : DaemonM Int := do
        refused
        let _ : Unit ← sys .close
        return 1
      have refuses : ∃ w₄, Exec (pidKernel host p) (gives running) w₂ (.returned (1, running)) w₄ :=
        ⟨_, Exec.bind asks (Exec.bind (exec_sys (c := .close) rfl) (.ret _ _))⟩
      obtain ⟨w₄, refuses⟩ := refuses
      exact ⟨w₄, Exec.bind (exec_sys opened)
        (Exec.bind asked (Code.exec_if host.isConflict refuses))⟩
    · rw [if_neg taken] at isAnswer ⊢
      subst isAnswer
      obtain ⟨truncated, w₃, truncates⟩ := pidKernel_answers host (p := p) (.ftruncate 0) w₂
      obtain ⟨written, w₄, writes⟩ := pidKernel_answers host (.write (pidText host p)) w₃
      exact ⟨w₄, Exec.bind (exec_sys opened) (Exec.bind asked (Exec.bind (exec_sys truncates)
        (Exec.bind (exec_sys (c := .getpid) rfl) (Exec.bind (exec_sys writes) (.ret _ _)))))⟩
  cases version with
  | single => exact run _ fun w => ⟨w, .ret _ _⟩
  | init =>
    exact run _ fun w =>
      ⟨w, Exec.bind (Exec.bind (exec_sys (c := .getlk .write 0 0) rfl) (.ret _ _)) (.ret _ _)⟩

/-- A process that calls `already_running` when the others rest is refused if one of them is the
daemon.  Otherwise it becomes the daemon, whatever a process that has been killed has left in the
file. -/
theorem next_instance (unlocked : w.locks = []) (run : DaemonRun host version (atBoot w) history s)
    (resting : Resting s)
    (alive : p ∉ s.dead) (idle : s.config.procs p = .idle false)
    (opens : s.config.world.denied p () = false)
    (works : host.lockFails p = none) :
    ∃ rc running w', Exec (pidKernel host p) ((daemons host version).code () false) s.config.world
      (.returned (rc, running)) w' ∧
      ((∃ q, Running s q) → rc = 1 ∧ running = false) ∧
      ((¬∃ q, Running s q) → rc = 0 ∧ running = true ∧
        (host.Records p → w'.bytes () = pidText host p)) := by
  have upheld := upheld_of_run unlocked run
  obtain ⟨w', runs⟩ := exec_alreadyRunning host version opens works false
  -- what is in the way is the lock of a daemon
  have taken_iff : s.config.world.locks.blocked p whole = true ↔ ∃ q, Running s q := by
    rw [upheld.inv.blocked_iff]
    constructor
    · rintro ⟨q, held, -⟩
      have still : q ∉ s.dead := fun isDead => upheld.dead q isDead held
      have holding := upheld.alive q still
      refine ⟨q, still, ?_⟩
      cases proc : s.config.procs q with
      | busy op rest => exact absurd proc (resting q still op rest)
      | stopped error =>
        rw [proc] at holding
        exact absurd held holding
      | idle running =>
        rw [proc] at holding
        cases running with
        | true => rfl
        | false => exact absurd held holding
    · rintro ⟨q, still, isRunning⟩
      have holding := upheld.alive q still
      rw [isRunning] at holding
      refine ⟨q, (show Instance host s.config.world q from holding).1, ?_⟩
      rintro rfl
      rw [idle] at isRunning
      cases isRunning
  -- how it ends up
  have quiet : Quiet host p false s.config.world := by
    have holding := upheld.alive p alive
    rwa [idle] at holding
  have safe := (upholds host version).enter quiet upheld.inv
    (show (daemons host version).may p false () from trivial)
  obtain ⟨outcome, w'', runs', -, -, result⟩ :=
    safe.exec_along (R := fun _ _ => True) (fun _ => trivial) (fun _ _ => trivial)
    (fun _ => trivial) upheld.inv (fun _ _ => trivial) fun w _ c => pidKernel_moves c w
  obtain ⟨rfl, rfl⟩ := runs'.deterministic (Exec.bind runs (.ret _ _))
  refine ⟨_, _, w'', runs', fun others => ?_, fun nobody => ?_⟩
  · rw [if_pos (taken_iff.2 others)]
    exact ⟨rfl, rfl⟩
  · have untaken : ¬s.config.world.locks.blocked p whole = true :=
      fun taken => nobody (taken_iff.1 taken)
    rw [if_neg untaken] at result ⊢
    have instanced : Instance host w'' p := result
    exact ⟨rfl, rfl, instanced.2⟩

/-- The first process has been killed: the second becomes the daemon, and the longer process ID is
gone from the file. -/
theorem next_instance_restarted :
    ∃ history s, DaemonRun twoProcesses .single (atBoot .absent) history s ∧ true ∈ s.dead ∧
    ∃ w', Exec (pidKernel twoProcesses false) ((daemons twoProcesses .single).code () false)
      s.config.world
      (.returned (0, true)) w' ∧ w'.bytes () = [55, 0] := by
  obtain ⟨history, s, run, -, runs, noneDead, idle, opens⟩ := second_refused
  have killed := run.kill runs.1
  have resting : Resting ⟨{ s.config with world := s.config.world.exit true },
      true :: s.dead, ()⟩ := by
    intro p alive op rest busy
    cases p with
    | true => exact alive (by simp)
    | false =>
      rw [show s.config.procs false = _ from busy] at idle
      cases idle
  obtain ⟨rc, running, w', called, -, becomes⟩ :=
    next_instance rfl killed resting (by simp [noneDead]) idle opens rfl
  have nobody : ¬∃ q, Running ⟨{ s.config with world := s.config.world.exit true }, true :: s.dead,
      ()⟩ q := by
    rintro ⟨q, alive, isRunning⟩
    cases q with
    | true => exact alive (by simp)
    | false =>
      rw [show s.config.procs false = _ from isRunning] at idle
      cases idle
  obtain ⟨rfl, rfl, text⟩ := becomes nobody
  exact ⟨_, _, killed, by simp, w', called, text (twoProcesses_records false)⟩

end

end Apue.Daemons
