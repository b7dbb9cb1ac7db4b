import Apue.Base.Chain
import Apue.Base.Machine
import Mathlib.Algebra.Group.Int.Defs
import Mathlib.Algebra.Group.Nat.Defs
import Mathlib.Logic.Function.Basic
import Mathlib.Logic.Relation

/-! # Reference-counted objects under two locks

The objects are kept in hash chains under `hashlock`, each of them counts its references under its
own `f_lock`.  A thread is in front of one lock, unlock, load or store at a time, and the threads
take turns after each of these.  `struct foo` is kept field by field; `live` says which addresses
are allocated.  A use of an object that is not, a lock of a mutex that is not initialised, an unlock
of a mutex that is not held and a step off the end of a chain bring the thread to `fault`.

Next to the program's memory the state keeps who has references: the caller of `foo_alloc` from the
allocation on, a thread that increments `f_count` from then on, the caller of `foo_rele` until its
decrement or its `free`.  References may be handed over between the calls.  `f_count` is an `int` of
32 bits, which wraps around.
-/

namespace Apue.Threads.RefCount

open Apue.Base

def nhash : Nat := 29

/-- `HASH`, with the conversion to `unsigned long`. -/
def hash (id : Int) : Fin nhash :=
  ⟨(id % 2 ^ 64 % nhash).toNat, by
    have size : (nhash : Int) = 29 := rfl
    rw [size, nhash]
    omega⟩

inductive Mutex (ι : Type) where
  | uninit
  | free
  | held (t : ι)
  deriving DecidableEq, Repr

/-- What a thread does next. -/
inductive Pc where
  /-- Not in any of the functions. -/
  | idle
  | fault
  -- `foo_alloc`, behind `malloc`
  | allocCount (fp : Nat) (id : Int)
  | allocId (fp : Nat) (id : Int)
  | allocInit (fp : Nat) (id : Int)
  | allocFree (fp : Nat)
  | allocHash (fp : Nat) (id : Int)
  | allocHead (fp : Nat) (id : Int)
  | allocNext (fp : Nat) (id : Int) (head : Option Nat)
  | allocLink (fp : Nat) (id : Int)
  | allocLock (fp : Nat)
  | allocUnhash (fp : Nat)
  | allocUnlock (fp : Nat)
  -- `foo_hold`; `found` when `foo_find` is the caller
  | holdLock (found : Bool) (fp : Nat)
  | holdLoad (found : Bool) (fp : Nat)
  | holdStore (found : Bool) (fp : Nat) (count : BitVec 32)
  | holdUnlock (found : Bool) (fp : Nat)
  -- `foo_find`
  | findHash (id : Int)
  | findHead (id : Int)
  | findTest (id : Int) (fp : Option Nat)
  | findNext (id : Int) (fp : Nat)
  | findUnhash (fp : Option Nat)
  -- `foo_rele`
  | releLock (fp : Nat)
  | releTest (fp : Nat)
  | releUnlock (fp : Nat)
  | releHash (fp : Nat)
  | releRelock (fp : Nat)
  | releRecheck (fp : Nat)
  -- its two decrements; `second` when `hashlock` is held
  | decLoad (second : Bool) (fp : Nat)
  | decStore (second : Bool) (fp : Nat) (count : BitVec 32)
  | decUnlock (second : Bool) (fp : Nat)
  | decUnhash
  -- its removal from the list
  | releId (fp : Nat)
  | releHead (fp : Nat) (idx : Fin nhash)
  | releFirst (fp : Nat) (idx : Fin nhash)
  | releFirstStore (fp : Nat) (idx : Fin nhash) (next : Option Nat)
  | releWhile (fp : Nat) (tfp : Option Nat)
  | releStep (fp tfp : Nat)
  | releNext (fp tfp : Nat)
  | releNextStore (fp tfp : Nat) (next : Option Nat)
  | releUnhash (fp : Nat)
  | releLast (fp : Nat)
  | releDestroy (fp : Nat)
  | releFree (fp : Nat)
  deriving DecidableEq, Repr

structure State (ι : Type) where
  fh : Fin nhash → Option Nat
  hashlock : Option ι
  live : Nat → Bool
  fCount : Nat → BitVec 32
  fLock : Nat → Mutex ι
  fId : Nat → Int
  fNext : Nat → Option Nat
  pc : ι → Pc
  /-- Who holds the outstanding references to an object. -/
  refs : Nat → List ι
  /-- How often `malloc` has given and `free` has taken back an address. -/
  mallocs : Nat → Nat
  frees : Nat → Nat

inductive Action (ι : Type) where
  /-- A call of `foo_alloc`, with what `malloc` returns. -/
  | alloc (t : ι) (id : Int) (fp : Option Nat)
  | find (t : ι) (id : Int)
  | hold (t : ι) (fp : Nat)
  | rele (t : ι) (fp : Nat)
  /-- `pthread_mutex_init`, with its outcome. -/
  | init (t : ι) (ok : Bool)
  /-- The next step of a function. -/
  | run (t : ι)
  /-- The thread leaves one of its references to another one. -/
  | give (t u : ι) (fp : Nat)
  deriving DecidableEq, Repr

variable {ι : Type}

def State.start : State ι where
  fh := fun _ => none
  hashlock := none
  live := fun _ => false
  fCount := fun _ => 0
  fLock := fun _ => .uninit
  fId := fun _ => 0
  fNext := fun _ => none
  pc := fun _ => .idle
  refs := fun _ => []
  mallocs := fun _ => 0
  frees := fun _ => 0

variable [DecidableEq ι]

namespace State

def goto (s : State ι) (t : ι) (pc : Pc) : State ι := { s with pc := Function.update s.pc t pc }

/-- A load or store of a field of the object. -/
def access (s : State ι) (t : ι) (fp : Nat) (next : State ι) : Option (State ι) :=
  if s.live fp = true then some next else some (s.goto t .fault)

def lockHash (s : State ι) (t : ι) (pc : Pc) : Option (State ι) :=
  match s.hashlock with
  | none => some ({ s with hashlock := some t }.goto t pc)
  | some _ => none

def unlockHash (s : State ι) (t : ι) (pc : Pc) : Option (State ι) :=
  if s.hashlock = some t then some ({ s with hashlock := none }.goto t
    pc) else some (s.goto t .fault)

def lock (s : State ι) (t : ι) (fp : Nat) (pc : Pc) : Option (State ι) :=
  if s.live fp = true then
    match s.fLock fp with
    | .uninit => some (s.goto t .fault)
    | .free => some ({ s with fLock := Function.update s.fLock fp (.held t) }.goto t pc)
    | .held _ => none
  else some (s.goto t .fault)

def unlock (s : State ι) (t : ι) (fp : Nat) (pc : Pc) : Option (State ι) :=
  if s.live fp = true ∧
    s.fLock fp = .held t then some ({ s with fLock := Function.update s.fLock fp .free }.goto t pc)
  else some (s.goto t .fault)

/-- `free(fp)`, with which the caller's reference ends. -/
def freeFoo (s : State ι) (t : ι) (fp : Nat) : Option (State ι) :=
  s.access t fp ({ s with
    live := Function.update s.live fp false
    refs := Function.update s.refs fp ((s.refs fp).erase t)
    frees := Function.update s.frees fp (s.frees fp + 1) }.goto t .idle)

def run (s : State ι) (t : ι) : Option (State ι) :=
  match s.pc t with
  | .idle | .fault | .allocInit _ _ => none
  | .allocCount fp id =>
    s.access t fp ({ s with fCount := Function.update s.fCount fp 1 }.goto t (.allocId fp id))
  | .allocId fp id =>
    s.access t fp ({ s with fId := Function.update s.fId fp id }.goto t (.allocInit fp id))
  | .allocFree fp => s.freeFoo t fp
  | .allocHash fp id => s.lockHash t (.allocHead fp id)
  | .allocHead fp id => some (s.goto t (.allocNext fp id (s.fh (hash id))))
  | .allocNext fp id head =>
    s.access t fp ({ s with fNext := Function.update s.fNext fp head }.goto t (.allocLink fp id))
  | .allocLink fp id =>
    some ({ s with fh := Function.update s.fh (hash id) (some fp) }.goto t (.allocLock fp))
  | .allocLock fp => s.lock t fp (.allocUnhash fp)
  | .allocUnhash fp => s.unlockHash t (.allocUnlock fp)
  | .allocUnlock fp => s.unlock t fp .idle
  | .holdLock found fp => s.lock t fp (.holdLoad found fp)
  | .holdLoad found fp => s.access t fp (s.goto t (.holdStore found fp (s.fCount fp)))
  | .holdStore found fp count =>
    s.access t fp ({ s with
      fCount := Function.update s.fCount fp (count + 1)
      refs := Function.update s.refs fp (t :: s.refs fp) }.goto t (.holdUnlock found fp))
  | .holdUnlock found fp => s.unlock t fp (if found then .findUnhash (some fp) else .idle)
  | .findHash id => s.lockHash t (.findHead id)
  | .findHead id => some (s.goto t (.findTest id (s.fh (hash id))))
  | .findTest _ none => some (s.goto t (.findUnhash none))
  | .findTest id (some fp) =>
    s.access t fp (s.goto t (if s.fId fp = id then .holdLock true fp else .findNext id fp))
  | .findNext id fp => s.access t fp (s.goto t (.findTest id (s.fNext fp)))
  | .findUnhash _ => s.unlockHash t .idle
  | .releLock fp => s.lock t fp (.releTest fp)
  | .releTest fp =>
    s.access t fp (s.goto t (if s.fCount fp = 1 then .releUnlock fp else .decLoad false fp))
  | .releUnlock fp => s.unlock t fp (.releHash fp)
  | .releHash fp => s.lockHash t (.releRelock fp)
  | .releRelock fp => s.lock t fp (.releRecheck fp)
  | .releRecheck fp =>
    s.access t fp (s.goto t (if s.fCount fp ≠ 1 then .decLoad true fp else .releId fp))
  | .decLoad second fp => s.access t fp (s.goto t (.decStore second fp (s.fCount fp)))
  | .decStore second fp count =>
    s.access t fp ({ s with
      fCount := Function.update s.fCount fp (count - 1)
      refs := Function.update s.refs fp ((s.refs fp).erase t) }.goto t (.decUnlock second fp))
  | .decUnlock second fp => s.unlock t fp (if second then .decUnhash else .idle)
  | .decUnhash => s.unlockHash t .idle
  | .releId fp => s.access t fp (s.goto t (.releHead fp (hash (s.fId fp))))
  | .releHead fp idx =>
    some (s.goto t (if s.fh idx = some fp then .releFirst fp idx else .releWhile fp (s.fh idx)))
  | .releFirst fp idx => s.access t fp (s.goto t (.releFirstStore fp idx (s.fNext fp)))
  | .releFirstStore fp idx next =>
    some ({ s with fh := Function.update s.fh idx next }.goto t (.releUnhash fp))
  | .releWhile _ none => some (s.goto t .fault)
  | .releWhile fp (some tfp) =>
    s.access t tfp (s.goto t (if s.fNext tfp ≠ some fp then .releStep fp tfp else .releNext fp tfp))
  | .releStep fp tfp => s.access t tfp (s.goto t (.releWhile fp (s.fNext tfp)))
  | .releNext fp tfp => s.access t fp (s.goto t (.releNextStore fp tfp (s.fNext fp)))
  | .releNextStore fp tfp next =>
    s.access t tfp ({ s with fNext := Function.update s.fNext tfp next }.goto t (.releUnhash fp))
  | .releUnhash fp => s.unlockHash t (.releLast fp)
  | .releLast fp => s.unlock t fp (.releDestroy fp)
  | .releDestroy fp =>
    if s.live fp = true ∧ s.fLock fp = .free then
      some ({ s with fLock := Function.update s.fLock fp .uninit }.goto t (.releFree fp))
    else some (s.goto t .fault)
  | .releFree fp => s.freeFoo t fp

def step (s : State ι) : Action ι → Option (State ι)
  | .alloc t id fp =>
    match s.pc t, fp with
    | .idle, none => some s
    | .idle, some fp =>
      if s.live fp = true then none
      else
        some ({ s with
          live := Function.update s.live fp true
          fLock := Function.update s.fLock fp .uninit
          refs := Function.update s.refs fp [t]
          mallocs := Function.update s.mallocs fp (s.mallocs fp + 1) }.goto t (.allocCount fp id))
    | _, _ => none
  | .find t id => if s.pc t = .idle then some (s.goto t (.findHash id)) else none
  | .hold t fp =>
    if s.pc t = .idle ∧ t ∈ s.refs fp then some (s.goto t (.holdLock false fp)) else none
  | .rele t fp => if s.pc t = .idle ∧ t ∈ s.refs fp then some (s.goto t (.releLock fp)) else none
  | .init t ok =>
    match s.pc t with
    | .allocInit fp id =>
      if ok then s.access t fp ({ s with fLock := Function.update s.fLock fp .free }.goto t
        (.allocHash fp id))
      else s.access t fp (s.goto t (.allocFree fp))
    | _ => none
  | .run t => s.run t
  | .give t u fp =>
    if s.pc t = .idle ∧ t ∈ s.refs fp then
      some { s with refs := Function.update s.refs fp (u :: (s.refs fp).erase t) }
    else none

end State

/-! ## The bounds of `int` -/

/-- The object whose count `foo_hold` increments in the step. -/
def State.increments (s : State ι) : Action ι → Option Nat
  | .run t =>
    match s.pc t with
    | .holdStore _ fp _ => some fp
    | _ => none
  | _ => none

/-- `foo_hold` counts a reference to an object that already has `INT_MAX` of them. -/
def State.Overcounts (s : State ι) (action : Action ι) : Prop :=
  ∃ fp ∈ s.increments action, 2 ^ 31 - 1 ≤ (s.refs fp).length

instance (s : State ι) (action : Action ι) : Decidable (s.Overcounts action) :=
  inferInstanceAs (Decidable (∃ fp ∈ s.increments action, 2 ^ 31 - 1 ≤ (s.refs fp).length))

theorem toInt_succ {count : BitVec 32} (below : count.toInt < 2 ^ 31 - 1) :
    (count + 1).toInt = count.toInt + 1 := by
  have small : ¬count.saddOverflow 1 = true := by
    simp only [BitVec.saddOverflow, Bool.or_eq_true, decide_eq_true_eq]
    have least := BitVec.le_toInt count
    simp
    omega
  rw [BitVec.toInt_add_of_not_saddOverflow small]
  rfl

theorem toInt_pred {count : BitVec 32} (positive : 0 < count.toInt) :
    (count - 1).toInt = count.toInt - 1 := by
  have small : ¬count.ssubOverflow 1 = true := by
    simp only [BitVec.ssubOverflow, Bool.or_eq_true, decide_eq_true_eq]
    have greatest := BitVec.toInt_lt (x := count)
    simp
    omega
  rw [BitVec.toInt_sub_of_not_ssubOverflow small]
  rfl

theorem toInt_eq_one {count : BitVec 32} : count.toInt = 1 ↔ count = 1 := by
  rw [← BitVec.toInt_inj]
  rfl

/-! ## Waiting -/

/-- The lock a thread needs for its next step. -/
inductive Lock where
  | hashlock
  | fLock (fp : Nat)
  deriving DecidableEq, Repr

def Pc.wants : Pc → Option Lock
  | .allocHash _ _ | .findHash _ | .releHash _ => some .hashlock
  | .allocLock fp | .holdLock _ fp | .releLock fp | .releRelock fp => some (.fLock fp)
  | _ => none

/-- The thread cannot go on because of the other one. -/
def State.WaitsFor (s : State ι) (t u : ι) : Prop :=
  match (s.pc t).wants with
  | none => False
  | some .hashlock => s.hashlock = some u
  | some (.fLock fp) => s.fLock fp = .held u

/-- The object whose last reference the thread is giving up, or that it has not yet put on a
chain. -/
def Pc.offChain : Pc → Option Nat
  | .allocCount fp _ | .allocId fp _ | .allocInit fp _ | .allocFree fp | .allocHash fp _ | .allocHead fp _
  | .allocNext fp _ _ | .allocLink fp _ => some fp
  | .releUnhash fp | .releLast fp | .releDestroy fp | .releFree fp => some fp
  | _ => none

end Apue.Threads.RefCount
