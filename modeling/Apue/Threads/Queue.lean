import Apue.Base.DoublyLinked
import Apue.Base.Machine

/-! # A job queue for three threads

The jobs are in one doubly linked list under the read-write lock `q_lock`, and every worker has a
mutex and a condition variable of its own.  The emptiness test of `handle_job` is the only look at
the queue without `q_lock`; so the writes to `q_head` and `q_tail` inside the critical sections are
steps of their own, with the other writes of a section going with one of them.

Threads are their `pthread_t`, and any number of them may call `job_insert` and `job_append`;
`q_thread` is a parameter, since `main` creates the workers before it reads the first job.  A thread
that follows a pointer to no node, or gives back a lock it does not hold, comes to `fault`.  The
locks never fail: nobody takes one twice.  The state also keeps the jobs that have been accepted, in
the order in which they were linked, and who has executed which of them.
-/

namespace Apue.Threads.Queue

open Apue.Base

def nthread : Nat := 3

/-- `struct job`, less its links. -/
structure Job (τ : Type) where
  jId : τ
  jContent : List UInt8
  deriving DecidableEq, Repr

/-- The three cases of `job_remove`. -/
inductive Ends where
  | head
  | tail
  | middle
  deriving DecidableEq, Repr

/-- What a thread does next; `front` for `job_insert`, otherwise `job_append`. -/
inductive Pc where
  /-- Not in any of the functions. -/
  | idle
  | fault
  -- `job_insert` and `job_append`
  | mutex (front : Bool) (jp : Nat) (i : Fin nthread)
  | wrlock (front : Bool) (jp : Nat) (i : Fin nthread)
  | link (front : Bool) (jp : Nat) (i : Fin nthread)
  | finish (front : Bool) (jp : Nat) (i : Fin nthread)
  | wrunlock (i : Fin nthread)
  | unlock (i : Fin nthread)
  | signal (i : Fin nthread)
  -- `handle_job`
  | lock (i : Fin nthread)
  | testTail (i : Fin nthread)
  | testHead (i : Fin nthread)
  /-- In front of one of the two calls of `pthread_cond_wait`. -/
  | wait (second : Bool) (i : Fin nthread)
  | blocked (second : Bool) (i : Fin nthread)
  | woken (second : Bool) (i : Fin nthread)
  | notFound (i : Fin nthread)
  | relock (i : Fin nthread)
  | execute (i : Fin nthread) (jp : Nat)
  | turn (i : Fin nthread)
  -- `job_find`
  | rdlock (i : Fin nthread)
  | search (i : Fin nthread) (jp : Option Nat)
  | rdunlock (i : Fin nthread) (jp : Option Nat)
  -- `job_remove`
  | removeLock (i : Fin nthread) (jp : Nat)
  | removeEnds (i : Fin nthread) (jp : Nat)
  | removeLinks (i : Fin nthread) (jp : Nat) (ends : Ends)
  | removeUnlock (i : Fin nthread)
  deriving DecidableEq, Repr

structure State (τ : Type) where
  heap : Heap (Job τ)
  qHead : Option Nat
  qTail : Option Nat
  /-- `q_lock`: who has it for writing, and who for reading. -/
  writer : Option τ
  readers : List τ
  qMutex : Fin nthread → Option τ
  pc : τ → Pc
  /-- The accepted jobs in the order in which they were linked, with the end they came in at. -/
  accepted : List (Bool × Job τ)
  /-- Which of them a node was linked as. -/
  serial : Nat → Nat
  /-- Who has executed which of them. -/
  executed : List (τ × Nat)

inductive Action (τ : Type) where
  /-- A call of `job_insert` or `job_append`, with what `malloc` returns. -/
  | add (t : τ) (front : Bool) (job : Node (Job τ)) (jp : Option Nat)
  | handleJob (t : τ)
  /-- The next step of a function. -/
  | run (t : τ)
  /-- `pthread_cond_wait` returns without a signal. -/
  | spurious (t : τ)

/-! ## The list operations -/

section Lists

variable {τ : Type}

/-- `p->field = …`; `none` when the pointer leads to no node. -/
def store (heap : Heap (Job τ)) (p : Option Nat) (change : Node (Job τ) → Node (Job τ)) :
    Option (Heap (Job τ)) :=
  match p with
  | none => none
  | some a => heap.adjust (some a) change

/-- `job_append` up to its write to `q_tail`: the list and `q_head`. -/
def jobAppend (heap : Heap (Job τ)) (qHead qTail : Option Nat) (jp : Nat) :
    Option (Heap (Job τ) × Option Nat) := do
  let heap ← store heap (some jp) fun node => { node with next := none, prev := qTail }
  if qTail ≠ none then
    let heap ← store heap qTail fun node => { node with next := some jp }
    some (heap, qHead)
  else some (heap, some jp)

/-- `job_insert` up to its write to `q_head`: the list and `q_tail`. -/
def jobInsert (heap : Heap (Job τ)) (qHead qTail : Option Nat) (jp : Nat) :
    Option (Heap (Job τ) × Option Nat) := do
  let heap ← store heap (some jp) fun node => { node with next := qHead, prev := none }
  if qHead ≠ none then
    let heap ← store heap qHead fun node => { node with prev := some jp }
    some (heap, qTail)
  else some (heap, some jp)

/-- What `job_remove` does first: the case, `q_head` and `q_tail`. -/
def removeEnds (heap : Heap (Job τ)) (qHead qTail : Option Nat) (jp : Nat) :
    Option (Ends × Option Nat × Option Nat) :=
  if qHead = some jp then (heap jp).map fun node => (.head, node.next, qTail)
  else if qTail = some jp then (heap jp).map fun node => (.tail, qHead, node.prev)
  else some (.middle, qHead, qTail)

/-- The rest of `job_remove`, with `free`: the list and `q_tail`. -/
def removeLinks (heap : Heap (Job τ)) (qTail : Option Nat) (jp : Nat) (ends : Ends) :
    Option (Heap (Job τ) × Option Nat) := do
  let node ← heap jp
  match ends with
  | .head =>
    if qTail = some jp then some (Function.update heap jp none, none)
    else
      let heap ← store heap node.next fun after => { after with prev := node.prev }
      some (Function.update heap jp none, qTail)
  | .tail =>
    let heap ← store heap node.prev fun before => { before with next := node.next }
    some (Function.update heap jp none, qTail)
  | .middle =>
    let heap ← store heap node.prev fun before => { before with next := node.next }
    let node ← heap jp
    let heap ← store heap node.next fun after => { after with prev := node.prev }
    some (Function.update heap jp none, qTail)

end Lists

/-! ## The threads -/

variable {τ : Type}

def State.start : State τ where
  heap := fun _ => none
  qHead := none
  qTail := none
  writer := none
  readers := []
  qMutex := fun _ => none
  pc := fun _ => .idle
  accepted := []
  serial := fun _ => 0
  executed := []

variable [DecidableEq τ]

/-- The loops that look for a thread in `q_thread[]`. -/
def index (qThread : Fin nthread → τ) (t : τ) : Option (Fin nthread) :=
  (List.finRange nthread).find? fun i => qThread i = t

namespace State

def goto (s : State τ) (t : τ) (pc : Pc) : State τ := { s with pc := Function.update s.pc t pc }

def lockMutex (s : State τ) (t : τ) (i : Fin nthread) (pc : Pc) : Option (State τ) :=
  match s.qMutex i with
  | none => some ({ s with qMutex := Function.update s.qMutex i (some t) }.goto t pc)
  | some _ => none

def unlockMutex (s : State τ) (t : τ) (i : Fin nthread) (pc : Pc) : Option (State τ) :=
  if s.qMutex i = some t then some ({ s with qMutex := Function.update s.qMutex i none }.goto t pc)
  else some (s.goto t .fault)

def lockWrite (s : State τ) (t : τ) (pc : Pc) : Option (State τ) :=
  if s.writer = none ∧ s.readers = [] then some ({ s with writer := some t }.goto t pc) else none

def unlockWrite (s : State τ) (t : τ) (pc : Pc) : Option (State τ) :=
  if s.writer = some t then some ({ s with writer := none }.goto t pc) else some (s.goto t .fault)

def lockRead (s : State τ) (t : τ) (pc : Pc) : Option (State τ) :=
  if s.writer = none then some ({ s with readers := t :: s.readers }.goto t pc) else none

def unlockRead (s : State τ) (t : τ) (pc : Pc) : Option (State τ) :=
  if t ∈ s.readers then some ({ s with readers := s.readers.erase t }.goto t
    pc) else some (s.goto t .fault)

/-- The first part of a critical section of `job_insert` or `job_append`, with which the job is
accepted. -/
def linkJob (s : State τ) (t : τ) (front : Bool) (jp : Nat) (i : Fin nthread) : State τ :=
  match s.heap jp with
  | none => s.goto t .fault
  | some node =>
    let accepted := s.accepted ++ [(front, node.val)]
    let serial := Function.update s.serial jp s.accepted.length
    if front then
      match jobInsert s.heap s.qHead s.qTail jp with
      | none => s.goto t .fault
      | some (heap, qTail) =>
        { s with heap := heap, qTail := qTail, accepted := accepted, serial := serial }.goto t
          (.finish front jp i)
    else
      match jobAppend s.heap s.qHead s.qTail jp with
      | none => s.goto t .fault
      | some (heap, qHead) =>
        { s with heap := heap, qHead := qHead, accepted := accepted, serial := serial }.goto t
          (.finish front jp i)

/-- `pthread_cond_signal(&q_cond[i])`: nobody but the worker with this index waits there. -/
def wake (s : State τ) (qThread : Fin nthread → τ) (i : Fin nthread) : State τ :=
  match s.pc (qThread i) with
  | .blocked second j => if j = i then s.goto (qThread i) (.woken second i) else s
  | _ => s

def run (qThread : Fin nthread → τ) (s : State τ) (t : τ) : Option (State τ) :=
  match s.pc t with
  | .idle | .fault | .blocked _ _ => none
  | .mutex front jp i => s.lockMutex t i (.wrlock front jp i)
  | .wrlock front jp i => s.lockWrite t (.link front jp i)
  | .link front jp i => some (s.linkJob t front jp i)
  | .finish front jp i =>
    if front then some ({ s with qHead := some jp }.goto t (.wrunlock i))
    else some ({ s with qTail := some jp }.goto t (.wrunlock i))
  | .wrunlock i => s.unlockWrite t (.unlock i)
  | .unlock i => s.unlockMutex t i (.signal i)
  | .signal i => some ((s.wake qThread i).goto t .idle)
  | .lock i => s.lockMutex t i (.testTail i)
  | .testTail i => some (s.goto t (if s.qTail = none then .wait false i else .testHead i))
  | .testHead i => some (s.goto t (if s.qHead = none then .wait false i else .rdlock i))
  | .wait second i => s.unlockMutex t i (.blocked second i)
  | .woken second i => s.lockMutex t i (if second then .turn i else .testTail i)
  | .rdlock i => s.lockRead t (.search i s.qHead)
  | .search i none => some (s.goto t (.rdunlock i none))
  | .search i (some jp) =>
    match s.heap jp with
    | none => some (s.goto t .fault)
    | some node =>
      some (s.goto t (if node.val.jId = t then .rdunlock i (some jp) else .search i node.next))
  | .rdunlock i jp =>
    s.unlockRead t (match jp with
      | none => .notFound i
      | some jp => .execute i jp)
  | .execute i jp =>
    match s.heap jp with
    | none => some (s.goto t .fault)
    | some _ =>
      some ({ s with executed := s.executed ++ [(t, s.serial jp)] }.goto t (.removeLock i jp))
  | .removeLock i jp => s.lockWrite t (.removeEnds i jp)
  | .removeEnds i jp =>
    match Queue.removeEnds s.heap s.qHead s.qTail jp with
    | none => some (s.goto t .fault)
    | some (ends, qHead, qTail) =>
      some ({ s with qHead := qHead, qTail := qTail }.goto t (.removeLinks i jp ends))
  | .removeLinks i jp ends =>
    match Queue.removeLinks s.heap s.qTail jp ends with
    | none => some (s.goto t .fault)
    | some (heap, qTail) => some ({ s with heap := heap, qTail := qTail }.goto t (.removeUnlock i))
  | .removeUnlock i => s.unlockWrite t (.turn i)
  | .notFound i => s.unlockMutex t i (.relock i)
  | .relock i => s.lockMutex t i (.wait true i)
  | .turn i => s.unlockMutex t i (.lock i)

def step (qThread : Fin nthread → τ) (s : State τ) : Action τ → Option (State τ)
  | .add t front job jp =>
    match s.pc t, jp with
    | .idle, none => some s
    | .idle, some jp =>
      match s.heap jp with
      | some _ => none
      | none =>
        let s := { s with heap := Function.update s.heap jp (some job) }
        match index qThread job.val.jId with
        | none => some s
        | some i => some (s.goto t (.mutex front jp i))
    | _, _ => none
  | .handleJob t =>
    match s.pc t with
    | .idle =>
      match index qThread t with
      | none => some s
      | some i => some (s.goto t (.lock i))
    | _ => none
  | .run t => s.run qThread t
  | .spurious t =>
    match s.pc t with
    | .blocked second i => some (s.goto t (.woken second i))
    | _ => none

end State

/-! ## Signals -/

/-- The index of the worker the thread has linked a job for and not yet signalled. -/
def Pc.owesSignal : Pc → Option (Fin nthread)
  | .finish _ _ i | .wrunlock i | .unlock i | .signal i => some i
  | _ => none

/-! ## The threads of `main` -/

/-- Thread `i` of `q_thread`; the last thread is `main` itself. -/
def workers (i : Fin nthread) : Fin (nthread + 1) := i.castSucc

def mainThread : Fin (nthread + 1) := Fin.last nthread

def worker0 : Fin nthread := ⟨0, by decide⟩

def worker1 : Fin nthread := ⟨1, by decide⟩

/-- All workers have been created. -/
def created : List (Action (Fin (nthread + 1))) :=
  (List.finRange nthread).map fun i => .handleJob (workers i)

/-- A call of `job_append` for a worker from its start to its end, as the only thread that moves. -/
def appends (i : Fin nthread) (jp : Nat) : List (Action (Fin (nthread + 1))) :=
  .add mainThread false ⟨none, none, ⟨workers i, []⟩⟩ (some jp) :: List.replicate 7
    (.run mainThread)

end Apue.Threads.Queue
