import Apue.Base.Machine
import Apue.Base.Semaphores

/-! # Named semaphores with a count of their users

`lib/semaph.c` keeps three semaphores for one key: the value, a counter that starts at `BIGCOUNT`
and goes down with every `sem_create` and `sem_open`, and a lock for `sem_create` and `sem_close`.
The last `sem_close` removes the set.

The processes run one system call at a time, and any of them can exit at any time.  There is one
key, which is neither `IPC_PRIVATE` nor -1, and at most one set with it; the identifiers of the sets
count up, so the one that exists is the newest.  A handle is a process and the identifier that it
got from `sem_create` or `sem_open` and has not given back with `sem_close`.
-/

namespace Apue.Lib.Semaph

open Apue.Base

/-! ## The code -/

def bigcount : Int := 10000

/-- The members [0], [1] and [2]. -/
inductive Member where
  | value
  | counter
  | lock
  deriving DecidableEq, Repr

def opLock : List (Sembuf Member) := [⟨.lock, 0, false⟩, ⟨.lock, 1, true⟩]

def opEndcreate : List (Sembuf Member) := [⟨.counter, -1, true⟩, ⟨.lock, -1, true⟩]

def opOpen : List (Sembuf Member) := [⟨.counter, -1, true⟩]

def opClose : List (Sembuf Member) := [⟨.lock, 0, false⟩, ⟨.lock, 1, true⟩, ⟨.counter, 1, true⟩]

def opUnlock : List (Sembuf Member) := [⟨.lock, -1, true⟩]

def opOp (value : Int) : List (Sembuf Member) := [⟨.value, value, true⟩]

/-- The errors of `semop` and `semctl`. -/
inductive Errno where
  /-- There is no such set. -/
  | einval
  /-- The set was removed while the caller slept. -/
  | eidrm
  | erange
  deriving DecidableEq, Repr

inductive Caller where
  | create
  | openIt
  | op
  | close
  deriving DecidableEq, Repr

/-- Why a process ends itself: `err_sys` after a system call, or a check that fails. -/
inductive Failure where
  | syscall (caller : Caller) (errno : Errno)
  | check
  deriving DecidableEq, Repr

/-- Where a process is: the system call that it makes next. -/
inductive Pc where
  | idle
  /-- `sem_create`: `semget`. -/
  | semget (initval : Int)
  /-- `semop` with `op_lock`. -/
  | lock (initval : Int) (id : Nat)
  /-- `GETVAL` of [1]. -/
  | getCounter (initval : Int) (id : Nat)
  /-- `SETVAL` of [0]. -/
  | setValue (initval : Int) (id : Nat)
  /-- `SETVAL` of [1]. -/
  | setCounter (id : Nat)
  /-- `semop` with `op_endcreate`. -/
  | endCreate (id : Nat)
  /-- `sem_open`: `semget`. -/
  | openGet
  /-- `semop` with `op_open`. -/
  | openCount (id : Nat)
  /-- `sem_op`. -/
  | op (id : Nat) (value : Int)
  /-- `sem_close`: `semop` with `op_close`. -/
  | closeLock (id : Nat)
  /-- `GETVAL` of [1]. -/
  | closeCounter (id : Nat)
  /-- `IPC_RMID`. -/
  | remove (id : Nat)
  /-- `semop` with `op_unlock`. -/
  | unlock (id : Nat)
  /-- On its way to exit, with the lock if it had it. -/
  | failed (failure : Failure) (held : Option Nat)
  | exited
  deriving DecidableEq, Repr

/-- The set whose lock the process holds. -/
def Pc.inside : Pc → Option Nat
  | .getCounter _ id | .setValue _ id | .setCounter id | .endCreate id | .closeCounter id | .remove id | .unlock id => some id
  | .failed _ held => held
  | _ => none

structure State (τ : Type) where
  set : Option (SemSet Member τ)
  /-- The identifier of the newest set. -/
  semid : Nat
  /-- Member [1] of the set has been given its first value. -/
  initialised : Bool
  pc : τ → Pc
  /-- Asleep in its `semop`. -/
  asleep : τ → Bool
  handles : List (τ × Nat)

inductive Call where
  | create (initval : Int)
  | openIt
  | op (id : Nat) (value : Int)
  | close (id : Nat)
  deriving DecidableEq, Repr

inductive Action (τ : Type) where
  | call (t : τ) (call : Call)
  | run (t : τ)
  /-- `semget` fails, and -1 is returned. -/
  | refuse (t : τ)
  | exit (t : τ)
  deriving DecidableEq, Repr

variable {τ : Type} [DecidableEq τ]

def State.start : State τ where
  set := none
  semid := 0
  initialised := false
  pc _ := .idle
  asleep _ := false
  handles := []

namespace State

/-- The set with this identifier. -/
def find (s : State τ) (id : Nat) : Option (SemSet Member τ) := if id = s.semid then s.set else none

def goto (s : State τ) (t : τ) (pc : Pc) : State τ :=
  { s with pc := Function.update s.pc t pc, asleep := Function.update s.asleep t false }

/-- `err_sys` or `err_dump`. -/
def fail (s : State τ) (t : τ) (failure : Failure) : State τ :=
  s.goto t (.failed failure (s.pc t).inside)

/-- `semop`, and what the caller does with the result. -/
def semop (s : State τ) (t : τ) (id : Nat) (sops : List (Sembuf Member)) (next : State τ → State τ)
    (error : Errno → State τ) : Option (State τ) :=
  match s.find id with
  | none => some (error (if s.asleep t then .eidrm else .einval))
  | some set =>
    match set.semop t sops with
    | .done set => some (next { s with set := some set })
    | .blocks =>
      if s.asleep t then none else some { s with asleep := Function.update s.asleep t true }
    | .range => some (error .erange)

/-- The next system call of a process. -/
def run (s : State τ) (t : τ) : Option (State τ) :=
  match s.pc t with
  | .semget initval =>
    match s.set with
    | some _ => some (s.goto t (.lock initval s.semid))
    -- `IPC_CREAT`: the members of a new set are 0
    | none =>
      let s := { s with set := some .zero, semid := s.semid + 1, initialised := false }
      some (s.goto t (.lock initval s.semid))
  | .lock initval id =>
    s.semop t id opLock (fun s => s.goto t (.getCounter initval id)) fun errno =>
      if errno = .einval then s.goto t (.semget initval) else s.fail t (.syscall .create errno)
  | .getCounter initval id =>
    match s.find id with
    | none => some (s.fail t (.syscall .create .einval))
    | some set =>
      some (s.goto t (if set.semval .counter = 0 then .setValue initval id else .endCreate id))
  | .setValue initval id =>
    match s.find id with
    | none => some (s.fail t (.syscall .create .einval))
    | some set =>
      if 0 ≤ initval ∧ initval ≤ semvmx then
        some (State.goto { s with set := some (set.setval .value initval) } t (.setCounter id))
      else some (s.fail t (.syscall .create .erange))
  | .setCounter id =>
    match s.find id with
    | none => some (s.fail t (.syscall .create .einval))
    | some set =>
      some (State.goto { s with set := some (set.setval .counter bigcount), initialised := true } t
        (.endCreate id))
  | .endCreate id =>
    s.semop t id opEndcreate (fun s => State.goto { s with handles := (t, id) :: s.handles } t
        .idle) fun errno =>
      s.fail t (.syscall .create errno)
  | .openGet =>
    match s.set with
    | none => some (s.goto t .idle)
    | some _ => some (s.goto t (.openCount s.semid))
  | .openCount id =>
    s.semop t id opOpen (fun s => State.goto { s with handles := (t, id) :: s.handles } t .idle)
        fun errno =>
      s.fail t (.syscall .openIt errno)
  | .op id value =>
    if value = 0 then some (s.fail t .check)
    else s.semop t id (opOp value) (fun s => s.goto t .idle) fun errno =>
      s.fail t (.syscall .op errno)
  | .closeLock id =>
    s.semop t id opClose (fun s => State.goto { s with handles := s.handles.erase (t, id) } t
        (.closeCounter id)) fun errno =>
      s.fail t (.syscall .close errno)
  | .closeCounter id =>
    match s.find id with
    | none => some (s.fail t (.syscall .close .einval))
    | some set =>
      if bigcount < set.semval .counter then some (s.fail t .check)
      else some (s.goto t (if set.semval .counter = bigcount then .remove id else .unlock id))
  | .remove id =>
    match s.find id with
    | none => some (s.fail t (.syscall .close .einval))
    | some _ => some (State.goto { s with set := none } t .idle)
  | .unlock id =>
    s.semop t id opUnlock (fun s => s.goto t .idle) fun errno => s.fail t (.syscall .close errno)
  | .idle | .failed _ _ | .exited => none

/-- A call begins; only a handle can be used or closed. -/
def begin (s : State τ) (t : τ) : Call → Option (State τ)
  | .create initval => some (s.goto t (.semget initval))
  | .openIt => some (s.goto t .openGet)
  | .op id value => if (t, id) ∈ s.handles then some (s.goto t (.op id value)) else none
  | .close id => if (t, id) ∈ s.handles then some (s.goto t (.closeLock id)) else none

def step (s : State τ) : Action τ → Option (State τ)
  | .call t call => if s.pc t = .idle then s.begin t call else none
  | .run t => s.run t
  | .refuse t =>
    match s.pc t with
    | .semget _ | .openGet => some (s.goto t .idle)
    | _ => none
  -- the kernel undoes what was done with `SEM_UNDO`
  | .exit t =>
    if s.pc t = .exited then none
    else
      some (State.goto { s with
        set := s.set.map fun set => set.exit t
        handles := s.handles.filter fun handle => handle.1 ≠ t } t .exited)

end State

/-! ## What one step can do -/

/-- The set whose semaphores the process waits for in its next system call. -/
def Pc.waits : Pc → Option Nat
  | .lock _ id | .endCreate id | .openCount id | .op id _ | .closeLock id | .unlock id => some id
  | _ => none

variable {s s' : State τ} {t u : τ} {set set' : SemSet Member τ}

theorem opLock_done (done : set.semop t opLock = .done set') :
    set.semval .lock = 0 ∧ set' = set.add t ⟨.lock, 1, true⟩ := by
  -- the wait for 0 changes nothing, and the second operation adds 1
  obtain ⟨mid, waits, rest⟩ := SemSet.semop_cons_done.mp done
  obtain ⟨mid', takes, rest⟩ := SemSet.semop_cons_done.mp rest
  obtain rfl := SemSet.semop_nil.mp rest
  obtain ⟨-, zero, rfl⟩ | ⟨other, -⟩ := SemSet.perform_done waits
  · obtain ⟨impossible, -⟩ | ⟨-, -, rfl⟩ := SemSet.perform_done takes
    · cases impossible
    · exact ⟨zero, rfl⟩
  · exact absurd rfl other

theorem opEndcreate_done (done : set.semop t opEndcreate = .done set') :
    set' = (set.add t ⟨.counter, -1, true⟩).add t ⟨.lock, -1, true⟩ := by
  obtain ⟨mid, counts, rest⟩ := SemSet.semop_cons_done.mp done
  obtain ⟨mid', gives, rest⟩ := SemSet.semop_cons_done.mp rest
  obtain rfl := SemSet.semop_nil.mp rest
  obtain ⟨impossible, -⟩ | ⟨-, -, rfl⟩ := SemSet.perform_done counts
  · cases impossible
  · obtain ⟨impossible, -⟩ | ⟨-, -, rfl⟩ := SemSet.perform_done gives
    · cases impossible
    · rfl

/-- One operation that is not a wait for 0. -/
theorem semop_one_done {b : Sembuf Member} (nonzero : b.op ≠ 0)
    (done : set.semop t [b] = .done set') :
    0 ≤ set.semval b.num + b.op ∧ set' = set.add t b := by
  obtain ⟨mid, performs, rest⟩ := SemSet.semop_cons_done.mp done
  obtain rfl := SemSet.semop_nil.mp rest
  obtain ⟨impossible, -⟩ | ⟨-, enough, rfl⟩ := SemSet.perform_done performs
  · exact absurd impossible nonzero
  · exact ⟨enough, rfl⟩

theorem opClose_done (done : set.semop t opClose = .done set') :
    set.semval .lock = 0 ∧ set' = (set.add t ⟨.lock, 1, true⟩).add t ⟨.counter, 1, true⟩ := by
  obtain ⟨mid, waits, rest⟩ := SemSet.semop_cons_done.mp done
  obtain ⟨mid', takes, rest⟩ := SemSet.semop_cons_done.mp rest
  obtain ⟨-, zero, rfl⟩ | ⟨other, -⟩ := SemSet.perform_done waits
  · obtain ⟨impossible, -⟩ | ⟨-, -, rfl⟩ := SemSet.perform_done takes
    · cases impossible
    · exact ⟨zero, (semop_one_done (by simp) rest).2⟩
  · exact absurd rfl other

namespace State

/-- The ways in which the next system call of a process can go. -/
inductive Moves (s : State τ) (t : τ) : State τ → Prop where
  | sleeps (id : Nat) (at_ : (s.pc t).waits = some id) (found : s.find id ≠ none) :
      Moves s t { s with asleep := Function.update s.asleep t true }
  /-- A call of `sem_create` fails on a set that is not there when it has the lock of it or has
  slept for it. -/
  | fails (failure : Failure)
      (why : ∀ errno, failure = .syscall .create errno → errno = .erange ∨ ∃ id, s.find id = none ∧
        ((s.pc t).inside = some id ∨ errno = .eidrm ∧ (∃ initval, s.pc t = .lock initval id) ∧
          s.asleep t = true)) :
      Moves s t (s.fail t failure)
  /-- The process goes on to a place at which it needs nothing yet. -/
  | goes (pc : Pc) (outside : pc.inside = none) (before : (s.pc t).inside = none)
      (plain : (∀ id, pc ≠ .closeLock id) ∧ ∀ failure held, pc ≠ .failed failure held) :
        Moves s t (s.goto t pc)
  | created (initval : Int) (at_ : s.pc t = .semget initval) (none : s.set = none) :
      Moves s t (State.goto { s with set := some .zero, semid := s.semid + 1, initialised := false } t
        (.lock initval (s.semid + 1)))
  | locked (initval : Int) (id : Nat) (set : SemSet Member τ) (at_ : s.pc t = .lock initval id) (found : s.find id = some set)
      (free : set.semval .lock = 0) :
      Moves s t (State.goto { s with set := some (set.add t ⟨.lock, 1, true⟩) } t
        (.getCounter initval id))
  | unset (initval : Int) (id : Nat) (set : SemSet Member τ) (at_ : s.pc t = .getCounter initval id)
      (found : s.find id = some set) (zero : set.semval .counter = 0) :
        Moves s t (s.goto t (.setValue initval id))
  | isSet (initval : Int) (id : Nat) (set : SemSet Member τ) (at_ : s.pc t = .getCounter initval id)
      (found : s.find id = some set) (nonzero : set.semval .counter ≠ 0) :
        Moves s t (s.goto t (.endCreate id))
  | setsValue (initval : Int) (id : Nat) (set : SemSet Member τ) (at_ : s.pc t = .setValue initval id)
      (found : s.find id = some set) :
      Moves s t (State.goto { s with set := some (set.setval .value initval) } t (.setCounter id))
  | setsCounter (id : Nat) (set : SemSet Member τ) (at_ : s.pc t = .setCounter id) (found : s.find id = some set) :
      Moves s t (State.goto { s with set := some (set.setval .counter bigcount), initialised := true } t (.endCreate id))
  | creates (id : Nat) (set : SemSet Member τ) (at_ : s.pc t = .endCreate id) (found : s.find id = some set) :
      Moves s t (State.goto { s with
        set := some ((set.add t ⟨.counter, -1, true⟩).add t ⟨.lock, -1, true⟩), handles :=
          (t, id) :: s.handles } t .idle)
  | opens (id : Nat) (set : SemSet Member τ) (at_ : s.pc t = .openCount id) (found : s.find id = some set)
      (enough : 0 < set.semval .counter) :
      Moves s t (State.goto { s with set := some (set.add t ⟨.counter, -1, true⟩), handles := (t, id) :: s.handles } t .idle)
  | operates (id : Nat) (set : SemSet Member τ) (value : Int) (at_ : s.pc t = .op id value) (found : s.find id = some set) :
      Moves s t (State.goto { s with set := some (set.add t ⟨.value, value, true⟩) } t .idle)
  | closes (id : Nat) (set : SemSet Member τ) (at_ : s.pc t = .closeLock id) (found : s.find id = some set)
      (free : set.semval .lock = 0) :
      Moves s t (State.goto { s with
        set := some ((set.add t ⟨.lock, 1, true⟩).add t ⟨.counter, 1, true⟩), handles :=
          s.handles.erase (t, id) } t
        (.closeCounter id))
  | last (id : Nat) (set : SemSet Member τ) (at_ : s.pc t = .closeCounter id) (found : s.find id = some set)
      (full : set.semval .counter = bigcount) : Moves s t (s.goto t (.remove id))
  | others (id : Nat) (at_ : s.pc t = .closeCounter id) : Moves s t (s.goto t (.unlock id))
  | removes (id : Nat) (at_ : s.pc t = .remove id) (found : s.find id ≠ none) :
      Moves s t (State.goto { s with set := none } t .idle)
  | unlocks (id : Nat) (set : SemSet Member τ) (at_ : s.pc t = .unlock id) (found : s.find id = some set) :
      Moves s t (State.goto { s with set := some (set.add t ⟨.lock, -1, true⟩) } t .idle)

/-- A `semop` that goes on, or sleeps, or ends in an error. -/
theorem semop_cases {id : Nat} {sops : List (Sembuf Member)} {next : State τ → State τ}
    {error : Errno → State τ}
    (at_ : (s.pc t).waits = some id) (calls : s.semop t id sops next error = some s') :
    (∃ set set', s.find id = some set ∧ set.semop t sops = .done set' ∧
      s' = next { s with set := some set' }) ∨
      s.Moves t s' ∨ (s.find id = none ∧ s' = error (if s.asleep t then .eidrm else .einval)) ∨
        s' = error .erange := by
  unfold State.semop at calls
  cases found : s.find id with
  | none =>
    simp only [found, Option.some.injEq] at calls
    exact .inr (.inr (.inl ⟨rfl, calls.symm⟩))
  | some set =>
    simp only [found] at calls
    cases performs : set.semop t sops with
    | done set' =>
      simp only [performs, Option.some.injEq] at calls
      exact .inl ⟨set, set', rfl, performs, calls.symm⟩
    | blocks =>
      simp only [performs] at calls
      -- who is asleep already cannot go on
      split at calls <;> simp only [Option.some.injEq, reduceCtorEq] at calls
      subst calls
      exact .inr (.inl (.sleeps id at_ (by simp [found])))
    | range =>
      simp only [performs, Option.some.injEq] at calls
      exact .inr (.inr (.inr calls.symm))

namespace Moves

/-- `sem_create` has the lock of a set that has been removed. -/
theorem missing {id : Nat} (inside : (s.pc t).inside = some id) (none : s.find id = none) :
    s.Moves t (s.fail t (.syscall .create .einval)) :=
      .fails _ fun _ _ => .inr ⟨id, none, .inl inside⟩

theorem range : s.Moves t (s.fail t (.syscall .create .erange)) := by
  refine .fails _ fun errno same => .inl ?_
  cases same
  rfl

/-- The `semop` of another function than `sem_create`, which may fail for whatever reason. -/
theorem of_semop {id : Nat} {sops : List (Sembuf Member)} {next : State τ → State τ}
    {caller : Caller} (other : caller ≠ .create)
    (at_ : (s.pc t).waits = some id)
    (calls : s.semop t id sops next (fun errno => s.fail t (.syscall caller errno)) = some s')
    (done : ∀ set set', s.find id = some set → set.semop t sops = .done set' →
    s.Moves t (next { s with set := some set' })) :
    s.Moves t s' := by
  have fails (errno : Errno) : s.Moves t (s.fail t (.syscall caller errno)) :=
    .fails _ (by simp [other])
  obtain ⟨set, set', found, performs, rfl⟩ | moves | ⟨-, rfl⟩ | rfl := semop_cases at_ calls
  · exact done set set' found performs
  · exact moves
  · exact fails _
  · exact fails _

end Moves

/-! ### `sem_create` -/

section Create

variable {initval : Int} {id : Nat}

theorem semget_moves (at_ : s.pc t = .semget initval) (runs : s.run t = some s') :
    s.Moves t s' := by
  simp only [run, at_] at runs
  cases present : s.set with
  | none =>
    simp only [present, Option.some.injEq] at runs
    subst runs
    exact .created initval at_ present
  | some set =>
    simp only [present, Option.some.injEq] at runs
    subst runs
    exact .goes _ rfl (by rw [at_]; rfl) (by simp)

theorem lock_moves (at_ : s.pc t = .lock initval id) (runs : s.run t = some s') : s.Moves t s' := by
  simp only [run, at_] at runs
  obtain ⟨set, set', found, done, rfl⟩ | moves | ⟨none, rfl⟩ | rfl :=
    semop_cases (by rw [at_]; rfl) runs
  · obtain ⟨free, rfl⟩ := opLock_done done
    exact .locked initval id set at_ found free
  · exact moves
  · -- the set is gone: `EINVAL` leads back to `semget`, but a process that was asleep gets `EIDRM`
    cases asleep : s.asleep t with
    | false => exact .goes _ rfl (by rw [at_]; rfl) (by simp)
    | true =>
      refine .fails _ fun errno same => .inr ⟨id, none, .inr ⟨?_, ⟨initval, at_⟩, asleep⟩⟩
      cases same
      rfl
  · exact .range

theorem getCounter_moves (at_ : s.pc t = .getCounter initval id) (runs : s.run t = some s') :
    s.Moves t s' := by
  simp only [run, at_] at runs
  cases found : s.find id with
  | none =>
    simp only [found, Option.some.injEq] at runs
    subst runs
    exact .missing (by rw [at_]; rfl) found
  | some set =>
    simp only [found, Option.some.injEq] at runs
    subst runs
    split
    · exact .unset initval id set at_ found (by assumption)
    · exact .isSet initval id set at_ found (by assumption)

theorem setValue_moves (at_ : s.pc t = .setValue initval id) (runs : s.run t = some s') :
    s.Moves t s' := by
  simp only [run, at_] at runs
  cases found : s.find id with
  | none =>
    simp only [found, Option.some.injEq] at runs
    subst runs
    exact .missing (by rw [at_]; rfl) found
  | some set =>
    simp only [found] at runs
    split at runs
    · simp only [Option.some.injEq] at runs
      subst runs
      exact .setsValue initval id set at_ found
    · simp only [Option.some.injEq] at runs
      subst runs
      exact .range

theorem setCounter_moves (at_ : s.pc t = .setCounter id) (runs : s.run t = some s') :
    s.Moves t s' := by
  simp only [run, at_] at runs
  cases found : s.find id with
  | none =>
    simp only [found, Option.some.injEq] at runs
    subst runs
    exact .missing (by rw [at_]; rfl) found
  | some set =>
    simp only [found, Option.some.injEq] at runs
    subst runs
    exact .setsCounter id set at_ found

theorem endCreate_moves (at_ : s.pc t = .endCreate id) (runs : s.run t = some s') :
    s.Moves t s' := by
  simp only [run, at_] at runs
  obtain ⟨set, set', found, done, rfl⟩ | moves | ⟨none, rfl⟩ | rfl :=
    semop_cases (by rw [at_]; rfl) runs
  · obtain rfl := opEndcreate_done done
    exact .creates id set at_ found
  · exact moves
  · exact .fails _ fun errno _ => .inr ⟨id, none, .inl (by rw [at_]; rfl)⟩
  · exact .range

end Create

/-! ### The other functions -/

section Other

variable {id : Nat}

theorem openGet_moves (at_ : s.pc t = .openGet) (runs : s.run t = some s') : s.Moves t s' := by
  simp only [run, at_] at runs
  cases present : s.set with
  | none =>
    simp only [present, Option.some.injEq] at runs
    subst runs
    exact .goes _ rfl (by rw [at_]; rfl) (by simp)
  | some set =>
    simp only [present, Option.some.injEq] at runs
    subst runs
    exact .goes _ rfl (by rw [at_]; rfl) (by simp)

theorem openCount_moves (at_ : s.pc t = .openCount id) (runs : s.run t = some s') :
    s.Moves t s' := by
  simp only [run, at_] at runs
  refine .of_semop (by simp) (by rw [at_]; rfl) runs fun set set' found done => ?_
  obtain ⟨enough, rfl⟩ := semop_one_done (by simp) done
  have positive : 0 ≤ set.semval .counter + -1 := enough
  exact .opens id set at_ found (by omega)

theorem op_moves {value : Int} (at_ : s.pc t = .op id value) (runs : s.run t = some s') :
    s.Moves t s' := by
  simp only [run, at_] at runs
  split at runs
  · simp only [Option.some.injEq] at runs
    subst runs
    exact .fails _ (by simp)
  · rename_i nonzero
    refine .of_semop (by simp) (by rw [at_]; rfl) runs fun set set' found done => ?_
    obtain ⟨-, rfl⟩ := semop_one_done nonzero done
    exact .operates id set value at_ found

theorem closeLock_moves (at_ : s.pc t = .closeLock id) (runs : s.run t = some s') :
    s.Moves t s' := by
  simp only [run, at_] at runs
  refine .of_semop (by simp) (by rw [at_]; rfl) runs fun set set' found done => ?_
  obtain ⟨free, rfl⟩ := opClose_done done
  exact .closes id set at_ found free

theorem closeCounter_moves (at_ : s.pc t = .closeCounter id) (runs : s.run t = some s') :
    s.Moves t s' := by
  simp only [run, at_] at runs
  cases found : s.find id with
  | none =>
    simp only [found, Option.some.injEq] at runs
    subst runs
    exact .fails _ (by simp)
  | some set =>
    simp only [found] at runs
    split at runs
    · simp only [Option.some.injEq] at runs
      subst runs
      exact .fails _ (by simp)
    · simp only [Option.some.injEq] at runs
      subst runs
      split
      · exact .last id set at_ found (by assumption)
      · exact .others id at_

theorem remove_moves (at_ : s.pc t = .remove id) (runs : s.run t = some s') : s.Moves t s' := by
  simp only [run, at_] at runs
  cases found : s.find id with
  | none =>
    simp only [found, Option.some.injEq] at runs
    subst runs
    exact .fails _ (by simp)
  | some set =>
    simp only [found, Option.some.injEq] at runs
    subst runs
    exact .removes id at_ (by simp [found])

theorem unlock_moves (at_ : s.pc t = .unlock id) (runs : s.run t = some s') : s.Moves t s' := by
  simp only [run, at_] at runs
  refine .of_semop (by simp) (by rw [at_]; rfl) runs fun set set' found done => ?_
  obtain ⟨-, rfl⟩ := semop_one_done (by simp) done
  exact .unlocks id set at_ found

end Other

theorem run_moves (runs : s.run t = some s') : s.Moves t s' := by
  cases at_ : s.pc t with
  | semget initval => exact semget_moves at_ runs
  | lock initval id => exact lock_moves at_ runs
  | getCounter initval id => exact getCounter_moves at_ runs
  | setValue initval id => exact setValue_moves at_ runs
  | setCounter id => exact setCounter_moves at_ runs
  | endCreate id => exact endCreate_moves at_ runs
  | openGet => exact openGet_moves at_ runs
  | openCount id => exact openCount_moves at_ runs
  | op id value => exact op_moves at_ runs
  | closeLock id => exact closeLock_moves at_ runs
  | closeCounter id => exact closeCounter_moves at_ runs
  | remove id => exact remove_moves at_ runs
  | unlock id => exact unlock_moves at_ runs
  | idle => simp [run, at_] at runs
  | failed failure held => simp [run, at_] at runs
  | exited => simp [run, at_] at runs

/-- The ways in which the state can change: a process moves, a call begins, is refused, or a process
exits. -/
theorem step_cases {action : Action τ} (steps : s.step action = some s') :
    (∃ t, action = .run t ∧ s.Moves t s') ∨
      (∃ t pc, pc.inside = none ∧ (s.pc t).inside = none ∧
        (∀ id, pc = .closeLock id → (t, id) ∈ s.handles) ∧
        (∀ failure held, pc ≠ .failed failure held) ∧ s' = s.goto t pc) ∨
      ∃ t, action = .exit t ∧ s' = State.goto { s with
        set := s.set.map fun set => set.exit t, handles :=
          s.handles.filter fun handle => handle.1 ≠ t } t .exited := by
  cases action with
  | run t => exact .inl ⟨t, rfl, run_moves steps⟩
  | call t call =>
    refine .inr (.inl ⟨t, ?_⟩)
    simp only [step] at steps
    split at steps
    · rename_i idle
      have outside : (s.pc t).inside = none := by rw [idle]; rfl
      cases call with
      | create initval =>
        simp only [begin, Option.some.injEq] at steps
        exact ⟨_, rfl, outside, by simp, by simp, steps.symm⟩
      | openIt =>
        simp only [begin, Option.some.injEq] at steps
        exact ⟨_, rfl, outside, by simp, by simp, steps.symm⟩
      | op id value =>
        simp only [begin] at steps
        split at steps <;> simp only [Option.some.injEq, reduceCtorEq] at steps
        exact ⟨_, rfl, outside, by simp, by simp, steps.symm⟩
      | close id =>
        simp only [begin] at steps
        split at steps <;> simp only [Option.some.injEq, reduceCtorEq] at steps
        rename_i own
        refine ⟨_, rfl, outside, fun other same => ?_, by simp, steps.symm⟩
        cases same
        exact own
    · simp at steps
  | refuse t =>
    refine .inr (.inl ⟨t, .idle, rfl, ?_, by simp, by simp, ?_⟩)
    · simp only [step] at steps
      split at steps
      · rename_i at_
        rw [at_]
        rfl
      · rename_i at_
        rw [at_]
        rfl
      · simp at steps
    · simp only [step] at steps
      split at steps <;> simp only [Option.some.injEq, reduceCtorEq] at steps <;> exact steps.symm
  | exit t =>
    refine .inr (.inr ⟨t, rfl, ?_⟩)
    simp only [step] at steps
    split at steps <;> simp only [Option.some.injEq, reduceCtorEq] at steps
    exact steps.symm

end State

end Apue.Lib.Semaph
