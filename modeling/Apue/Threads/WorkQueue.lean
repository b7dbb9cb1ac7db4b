import Apue.Base.Chain
import Apue.Base.Condition
import Apue.Base.Machine

/-! # Messages behind a condition variable

`process_msg` takes messages off the list `workq` and waits at `qready` while there is none;
`enqueue_msg` puts one in front of the list, and signals when it has given `qlock` back.  Any number
of threads call either, and they take turns after each access to `workq` or to a message and after
each call of the thread library.

A message is its address, and `next` its `m_next`.  The caller of `enqueue_msg` hands the message
over, and nobody enqueues it again before a consumer is done with it.  To follow a null pointer or
to unlock a mutex that it does not hold brings a thread to `fault`.  The state keeps who has put
what and taken what.
-/

namespace Apue.Threads.WorkQueue

open Apue.Base

/-! ## The code -/

/-- What a thread does next. -/
inductive Pc where
  /-- In neither function. -/
  | idle
  | fault
  -- `process_msg`
  | lock
  | test
  | wait
  | blocked
  | woken
  /-- `mp = workq` -/
  | load
  /-- `workq = mp->m_next` -/
  | take (mp : Nat)
  | unlock (mp : Nat)
  | process (mp : Nat)
  -- `enqueue_msg`
  | enqueueLock (mp : Nat)
  /-- `mp->m_next = workq` -/
  | link (mp : Nat)
  /-- `workq = mp` -/
  | publish (mp : Nat)
  | enqueueUnlock
  | signal
  deriving DecidableEq, Repr

inductive Event (ι : Type) where
  | put (t : ι) (mp : Nat)
  | take (t : ι) (mp : Nat)
  deriving DecidableEq, Repr

def Event.thread {ι : Type} : Event ι → ι
  | .put t _ | .take t _ => t

structure State (ι : Type) where
  next : Nat → Option Nat
  workq : Option Nat
  qlock : Option ι
  pc : ι → Pc
  /-- The message has been handed to `enqueue_msg`, and no consumer is done with it. -/
  handed : Nat → Bool
  history : List (Event ι)

inductive Action (ι : Type) where
  | processMsg (t : ι)
  | enqueueMsg (t : ι) (mp : Nat)
  /-- The next step of a function; a consumer that is done with its message goes on with its
  loop. -/
  | run (t : ι)
  /-- `pthread_cond_signal`, with the threads it wakes. -/
  | signal (t : ι) (woken : Finset ι)
  /-- `pthread_cond_wait` returns without a signal. -/
  | spurious (t : ι)

variable {ι : Type}

/-- Nobody has called a function yet. -/
def State.start (next : Nat → Option Nat) : State ι :=
  ⟨next, none, none, fun _ => .idle, fun _ => false, []⟩

variable [DecidableEq ι]

namespace State

def goto (s : State ι) (t : ι) (pc : Pc) : State ι := { s with pc := Function.update s.pc t pc }

def lockMutex (s : State ι) (t : ι) (pc : Pc) : Option (State ι) :=
  match s.qlock with
  | none => some ({ s with qlock := some t }.goto t pc)
  | some _ => none

def unlockMutex (s : State ι) (t : ι) (pc : Pc) : State ι :=
  if s.qlock = some t then { s with qlock := none }.goto t pc else s.goto t .fault

def run (s : State ι) (t : ι) : Option (State ι) :=
  match s.pc t with
  | .idle | .fault | .blocked | .signal => none
  | .lock | .woken => s.lockMutex t .test
  | .test => some (s.goto t (if s.workq = none then .wait else .load))
  | .wait => some (s.unlockMutex t .blocked)
  | .load =>
    match s.workq with
    | none => some (s.goto t .fault)
    | some mp => some (s.goto t (.take mp))
  | .take mp =>
    some ({ s with workq := s.next mp, history := s.history ++ [Event.take t mp] }.goto t
      (.unlock mp))
  | .unlock mp => some (s.unlockMutex t (.process mp))
  | .process mp => some ({ s with handed := Function.update s.handed mp false }.goto t .lock)
  | .enqueueLock mp => s.lockMutex t (.link mp)
  | .link mp => some ({ s with next := Function.update s.next mp s.workq }.goto t (.publish mp))
  | .publish mp =>
    some ({ s with workq := some mp, history := s.history ++ [Event.put t mp] }.goto t
      .enqueueUnlock)
  | .enqueueUnlock => some (s.unlockMutex t .signal)

def wake (s : State ι) (woken : Finset ι) : State ι :=
  { s with pc := fun u => if u ∈ woken then .woken else s.pc u }

variable [Fintype ι]

def step (s : State ι) : Action ι → Option (State ι)
  | .processMsg t => if s.pc t = .idle then some (s.goto t .lock) else none
  | .enqueueMsg t mp =>
    if s.pc t = .idle ∧ s.handed mp = false then
      some ({ s with handed := Function.update s.handed mp true }.goto t (.enqueueLock mp))
    else none
  | .run t => s.run t
  | .signal t woken =>
    if s.pc t = .signal ∧ (∀ u ∈ woken, s.pc u = .blocked) ∧
        (woken.Nonempty ∨ ∀ u, s.pc u ≠ .blocked) then
      some ((s.wake woken).goto t .idle)
    else none
  | .spurious t => if s.pc t = .blocked then some (s.goto t .woken) else none

end State

/-! ## What the queue is for -/

/-- A stack of messages. -/
def stack (messages : List Nat) : Event ι → Option (List Nat)
  | .put _ mp => some (mp :: messages)
  | .take _ mp => if messages.head? = some mp then some messages.tail else none

/-- What has been put and not taken yet, the newest message first. -/
def State.messages (s : State ι) : List Nat := (execute stack [] s.history).getD []

/-- What a thread has done last. -/
def latest (history : List (Event ι)) (t : ι) : Option (Event ι) :=
  (history.filter fun event => event.thread = t).getLast?

/-- The thread has `qlock`. -/
def Pc.critical : Pc → Prop
  | .test | .wait | .load | .take _ | .unlock _ | .link _ | .publish _ | .enqueueUnlock => True
  | _ => False

/-- The message that the thread has, while it is not on the list. -/
def Pc.carries : Pc → Option Nat
  | .unlock mp | .process mp | .enqueueLock mp | .link mp | .publish mp => some mp
  | _ => none

/-- What a thread knows at a place. -/
def State.Place (s : State ι) (nodes : List Nat) (t : ι) : Pc → Prop
  | .fault => False
  | .wait => nodes = []
  | .load => nodes ≠ []
  | .take mp => nodes.head? = some mp
  | .publish mp => s.next mp = s.workq
  | .unlock mp | .process mp => latest s.history t = some (.take t mp)
  | _ => True

structure State.Inv (s : State ι) (nodes : List Nat) : Prop where
  stacked : execute stack [] s.history = some nodes
  distinct : nodes.Nodup
  chain : Chain s.next s.workq nodes
  listed : ∀ mp ∈ nodes, s.handed mp = true
  holds : ∀ t, (s.pc t).critical ↔ s.qlock = some t
  place : ∀ t, s.Place nodes t (s.pc t)
  carried : ∀ t mp, (s.pc t).carries = some mp → mp ∉ nodes ∧ s.handed mp = true
  apart : ∀ t u mp, (s.pc t).carries = some mp → (s.pc u).carries = some mp → t = u

section

variable {s s' : State ι} {nodes nodes' : List Nat} {t u : ι} {pc : Pc} {mp : Nat}

omit [DecidableEq ι] in
theorem execute_stack_append {history : List (Event ι)} {event : Event ι}
    (stacked : execute stack [] history = some nodes) :
    execute stack [] (history ++ [event]) = stack nodes event := by
  rw [execute_append, stacked, Option.bind_some]
  simp only [execute]
  cases stack nodes event <;> rfl

theorem latest_own (history : List (Event ι)) (event : Event ι) :
    latest (history ++ [event]) event.thread = some event := by
  simp [latest, List.filter_append]

theorem latest_other (history : List (Event ι)) {event : Event ι} (other : t ≠ event.thread) :
    latest (history ++ [event]) t = latest history t := by
  simp [latest, List.filter_append, Ne.symm other]

@[simp] theorem goto_self (s : State ι) (t : ι) (pc : Pc) : (s.goto t pc).pc t = pc := Function.update_self ..

theorem goto_moves (s : State ι) (t : ι) (pc : Pc) :
    (s.goto t pc).pc = Function.update s.pc t pc := rfl

theorem goto_other (s : State ι) (pc : Pc) (other : u ≠ t) : (s.goto t pc).pc u = s.pc u :=
  Function.update_of_ne other ..

/-- Nothing that a thread knows has changed. -/
theorem place_of_same (next : s'.next = s.next) (workq : s'.workq = s.workq)
    (history : s'.history = s.history)
    (place : s.Place nodes t pc) : s'.Place nodes t pc := by
  cases pc with
  | publish mp =>
    rw [State.Place, next, workq]
    exact place
  | unlock mp | process mp =>
    rw [State.Place, history]
    exact place
  | _ => exact place

/-- A thread outside the critical sections knows only what it has done itself. -/
theorem place_of_outside (outside : ¬pc.critical)
    (history : latest s'.history t = latest s.history t)
    (place : s.Place nodes t pc) : s'.Place nodes' t pc := by
  cases pc <;> simp_all [State.Place, Pc.critical]

/-- What a step of one thread leaves to the others. -/
structure Rely (t : ι) (s : State ι) (nodes : List Nat) (s' : State ι)
    (nodes' : List Nat) : Prop where
  pc : ∀ u, u ≠ t → s'.pc u = s.pc u
  lock : ∀ u, u ≠ t → (s'.qlock = some u ↔ s.qlock = some u)
  place : ∀ u, u ≠ t → s.Place nodes u (s.pc u) → s'.Place nodes' u (s.pc u)
  carried : ∀ u, u ≠ t → ∀ mp, (s.pc u).carries = some mp → mp ∉ nodes' ∧ s'.handed mp = true

/-- What a step must keep, and what its own thread has afterwards. -/
theorem State.Inv.next (inv : s.Inv nodes) (rely : Rely t s nodes s' nodes')
    (stacked : execute stack [] s'.history = some nodes') (distinct : nodes'.Nodup)
    (chain : Chain s'.next s'.workq nodes')
    (listed : ∀ mp ∈ nodes', s'.handed mp = true) (holds : (s'.pc t).critical ↔ s'.qlock = some t)
    (place : s'.Place nodes' t (s'.pc t))
    (carried : ∀ mp, (s'.pc t).carries = some mp → mp ∉ nodes' ∧ s'.handed mp = true)
    (apart : ∀ u, u ≠ t → ∀ mp, (s'.pc t).carries = some mp → (s.pc u).carries ≠ some mp) :
    s'.Inv nodes' where
  stacked := stacked
  distinct := distinct
  chain := chain
  listed := listed
  holds u := by
    by_cases same : u = t
    · rwa [same]
    · rw [rely.pc u same, rely.lock u same]
      exact inv.holds u
  place u := by
    by_cases same : u = t
    · rwa [same]
    · rw [rely.pc u same]
      exact rely.place u same (inv.place u)
  carried u mp has := by
    by_cases same : u = t
    · exact carried mp (same ▸ has)
    · rw [rely.pc u same] at has
      exact rely.carried u same mp has
  apart u v mp hasU hasV := by
    by_cases sameU : u = t
    · by_cases sameV : v = t
      · rw [sameU, sameV]
      · rw [sameU] at hasU
        rw [rely.pc v sameV] at hasV
        exact absurd hasV (apart v sameV mp hasU)
    · rw [rely.pc u sameU] at hasU
      by_cases sameV : v = t
      · rw [sameV] at hasV
        exact absurd hasU (apart u sameU mp hasV)
      · rw [rely.pc v sameV] at hasV
        exact inv.apart u v mp hasU hasV

/-- A step that changes neither the list nor a message. -/
theorem State.Inv.quiet (inv : s.Inv nodes) (others : ∀ u, u ≠ t → s'.pc u = s.pc u)
    (next : s'.next = s.next)
    (workq : s'.workq = s.workq) (handed : s'.handed = s.handed) (history : s'.history = s.history)
    (lock : ∀ u, u ≠ t → (s'.qlock = some u ↔ s.qlock = some u))
    (holds : (s'.pc t).critical ↔ s'.qlock = some t)
    (place : s'.Place nodes t (s'.pc t))
    (carries : ∀ mp, (s'.pc t).carries = some mp → (s.pc t).carries = some mp) :
    s'.Inv nodes := by
  have rely : Rely t s nodes s' nodes := by
    refine ⟨others, lock, fun u _ known => place_of_same next workq history known,
      fun u _ mp has => ?_⟩
    rw [handed]
    exact inv.carried u mp has
  refine inv.next rely (history ▸ inv.stacked) inv.distinct ?_ (handed ▸ inv.listed) holds place
    (fun mp has => ?_) ?_
  · rw [next, workq]
    exact inv.chain
  · rw [handed]
    exact inv.carried t mp (carries mp has)
  · intro u other mp has there
    exact other (inv.apart u t mp there (carries mp has))

/-- Only the thread that has the lock is in a critical section. -/
theorem State.Inv.alone (inv : s.Inv nodes) (critical : (s.pc t).critical) (other : u ≠ t) :
    ¬(s.pc u).critical := by
  intro also
  have first := (inv.holds t).1 critical
  rw [(inv.holds u).1 also, Option.some.injEq] at first
  exact other first

/-- A step of the thread that has the lock, if it keeps the lock and the messages of the others. -/
theorem State.Inv.rely_holder (inv : s.Inv nodes) (critical : (s.pc t).critical)
    (others : ∀ u, u ≠ t → s'.pc u = s.pc u)
    (lock : s'.qlock = s.qlock) (handed : s'.handed = s.handed)
    (history : ∀ u, u ≠ t → latest s'.history u = latest s.history u)
    (carried : ∀ u, u ≠ t → ∀ mp, (s.pc u).carries = some mp → mp ∉ nodes') :
    Rely t s nodes s' nodes' where
  pc := others
  lock u _ := by rw [lock]
  place u other known := place_of_outside (inv.alone critical other) (history u other) known
  carried u other mp has := by
    rw [handed]
    exact ⟨carried u other mp has, (inv.carried u mp has).2⟩

/-! ## The steps -/

theorem State.Inv.start (next : Nat → Option Nat) : (State.start next : State ι).Inv [] where
  stacked := rfl
  distinct := .nil
  chain := rfl
  listed _ none := absurd none List.not_mem_nil
  holds t := by simp [State.start, Pc.critical]
  place _ := trivial
  carried t mp has := by simp [State.start, Pc.carries] at has
  apart t u mp has := by simp [State.start, Pc.carries] at has

/-- A step that only takes the thread on. -/
theorem State.Inv.goto (inv : s.Inv nodes) (critical : pc.critical ↔ (s.pc t).critical)
    (place : s.Place nodes t pc)
    (carries : ∀ mp, pc.carries = some mp → (s.pc t).carries = some mp) :
    (s.goto t pc).Inv nodes := by
  refine inv.quiet (fun u other => goto_other s pc other) rfl rfl rfl rfl (fun u _ => .rfl) ?_ ?_ ?_
  · rw [goto_self]
    exact critical.trans (inv.holds t)
  · rw [goto_self]
    exact place_of_same rfl rfl rfl place
  · rw [goto_self]
    exact carries

theorem State.Inv.lockMutex (inv : s.Inv nodes) (locks : s.lockMutex t pc = some s')
    (critical : pc.critical)
    (place : s.Place nodes t pc)
    (carries : ∀ mp, pc.carries = some mp → (s.pc t).carries = some mp) :
    s' = { s with qlock := some t }.goto t pc ∧ s'.Inv nodes := by
  unfold State.lockMutex at locks
  split at locks
  · rename_i free
    obtain rfl := Option.some.inj locks
    refine ⟨rfl, inv.quiet (fun u other => goto_other _ pc other)
      rfl rfl rfl rfl (fun u other => ?_) ?_ ?_ ?_⟩
    · simp [State.goto, free, Ne.symm other]
    · rw [goto_self]
      exact iff_of_true critical rfl
    · rw [goto_self]
      exact place_of_same rfl rfl rfl place
    · rw [goto_self]
      exact carries
  · cases locks

theorem State.Inv.unlockMutex (inv : s.Inv nodes) (pc : Pc) (critical : (s.pc t).critical)
    (outside : ¬pc.critical)
    (place : s.Place nodes t pc)
    (carries : ∀ mp, pc.carries = some mp → (s.pc t).carries = some mp) :
    s.unlockMutex t pc = { s with qlock := none }.goto t pc ∧ (s.unlockMutex t pc).Inv nodes := by
  have held : s.qlock = some t := (inv.holds t).1 critical
  rw [State.unlockMutex, if_pos held]
  refine ⟨rfl, inv.quiet (fun u other => goto_other _ pc other)
    rfl rfl rfl rfl (fun u other => ?_) ?_ ?_ ?_⟩
  · simp [State.goto, held, Ne.symm other]
  · rw [goto_self]
    exact iff_of_false outside (by simp [State.goto])
  · rw [goto_self]
    exact place_of_same rfl rfl rfl place
  · rw [goto_self]
    exact carries

/-- The ways through the functions, with the number of messages. -/
inductive Course : Pc → Nat → Pc → Nat → Prop where
  | lock (n : Nat) : Course .lock n .test n
  | woken (n : Nat) : Course .woken n .test n
  | nothing : Course .test 0 .wait 0
  | found (n : Nat) : Course .test n .load n
  | wait : Course .wait 0 .blocked 0
  | load (mp n : Nat) : Course .load n (.take mp) n
  | take (mp n : Nat) : Course (.take mp) (n + 1) (.unlock mp) n
  | unlock (mp n : Nat) : Course (.unlock mp) n (.process mp) n
  | process (mp n : Nat) : Course (.process mp) n .lock n
  | enqueueLock (mp n : Nat) : Course (.enqueueLock mp) n (.link mp) n
  | link (mp n : Nat) : Course (.link mp) n (.publish mp) n
  | publish (mp n : Nat) : Course (.publish mp) n .enqueueUnlock (n + 1)
  | enqueueUnlock (n : Nat) : Course .enqueueUnlock n .signal n

theorem State.Inv.take (inv : s.Inv nodes) (here : s.pc t = .take mp) : ∃ rest, nodes = mp :: rest ∧
    State.Inv ({ s with workq := s.next mp, history := s.history ++ [Event.take t mp] }.goto t
      (.unlock mp)) rest := by
  have known := inv.place t
  rw [here] at known
  obtain ⟨rest, rfl⟩ : ∃ rest, nodes = mp :: rest := List.head?_eq_some_iff.1 known
  have critical : (s.pc t).critical := by rw [here]; trivial
  obtain ⟨gone, distinct⟩ := List.nodup_cons.1 inv.distinct
  refine ⟨rest, rfl, inv.next (t := t) ?_ ?_ distinct inv.chain.2
    (fun a member => inv.listed a (List.mem_cons_of_mem _ member))
    ?_ ?_ ?_ ?_⟩
  · refine inv.rely_holder critical (fun u other => goto_other _ _ other)
      rfl rfl (fun u other => ?_) fun u _ a has member => ?_
    · exact latest_other s.history other
    · exact (inv.carried u a has).1 (List.mem_cons_of_mem mp member)
  · exact (execute_stack_append inv.stacked).trans (if_pos rfl)
  · rw [goto_self]
    exact iff_of_true trivial ((inv.holds t).1 critical)
  · rw [goto_self]
    exact latest_own s.history (.take t mp)
  · intro a has
    rw [goto_self] at has
    obtain rfl := Option.some.inj has
    exact ⟨gone, inv.listed mp List.mem_cons_self⟩
  · intro u _ a has there
    rw [goto_self] at has
    obtain rfl := Option.some.inj has
    exact (inv.carried u mp there).1 List.mem_cons_self

theorem State.Inv.process (inv : s.Inv nodes) (here : s.pc t = .process mp) :
    State.Inv ({ s with handed := Function.update s.handed mp false }.goto t .lock) nodes := by
  have carries : (s.pc t).carries = some mp := by rw [here]; rfl
  have kept {a : Nat} (other : a ≠ mp) (handed : s.handed a = true) :
      Function.update s.handed mp false a = true := by
    rwa [Function.update_of_ne other]
  refine inv.next (t := t) ⟨fun u other => goto_other _ _ other, fun _ _ => .rfl,
    fun u _ known => place_of_same rfl rfl rfl known,
    fun u other a has => ⟨(inv.carried u a has).1, kept ?_ (inv.carried u a has).2⟩⟩ inv.stacked
      inv.distinct inv.chain
    ?_ ?_ ?_ ?_ ?_
  · rintro rfl
    exact other (inv.apart u t a has carries)
  · intro a member
    refine kept ?_ (inv.listed a member)
    rintro rfl
    exact (inv.carried t a carries).1 member
  · rw [goto_self]
    refine iff_of_false id fun held => ?_
    have critical := (inv.holds t).2 held
    rw [here] at critical
    exact critical
  · rw [goto_self]
    trivial
  · intro a has
    rw [goto_self] at has
    cases has
  · intro u _ a has
    rw [goto_self] at has
    cases has

theorem State.Inv.link (inv : s.Inv nodes) (here : s.pc t = .link mp) :
    State.Inv ({ s with next := Function.update s.next mp s.workq }.goto t (.publish mp))
      nodes := by
  have critical : (s.pc t).critical := by rw [here]; trivial
  have carries : (s.pc t).carries = some mp := by rw [here]; rfl
  refine inv.next (t := t) ?_ inv.stacked inv.distinct ?_ inv.listed ?_ ?_ ?_ ?_
  · exact inv.rely_holder critical (fun u other => goto_other _ _ other) rfl rfl (fun _ _ => rfl)
      fun u _ a has => (inv.carried u a has).1
  · exact inv.chain.update (inv.carried t mp carries).1 s.workq
  · rw [goto_self]
    exact iff_of_true trivial ((inv.holds t).1 critical)
  · rw [goto_self]
    exact Function.update_self ..
  · intro a has
    rw [goto_self] at has
    exact inv.carried t a (carries.trans has)
  · intro u other a has there
    rw [goto_self] at has
    exact other (inv.apart u t a there (carries.trans has))

theorem State.Inv.publish (inv : s.Inv nodes) (here : s.pc t = .publish mp) :
    State.Inv ({ s with workq := some mp, history := s.history ++ [Event.put t mp] }.goto t
      .enqueueUnlock) (mp :: nodes) := by
  have known := inv.place t
  rw [here] at known
  have critical : (s.pc t).critical := by rw [here]; trivial
  have carries : (s.pc t).carries = some mp := by rw [here]; rfl
  obtain ⟨fresh, handed⟩ := inv.carried t mp carries
  refine inv.next (t := t) ?_ (execute_stack_append inv.stacked)
    (List.nodup_cons.2 ⟨fresh, inv.distinct⟩) ⟨rfl, ?_⟩ ?_ ?_ ?_ ?_ ?_
  · refine inv.rely_holder critical (fun u other => goto_other _ _ other)
      rfl rfl (fun u other => ?_)
      fun u other a has member => ?_
    · exact latest_other s.history other
    · obtain rfl | member := List.mem_cons.1 member
      · exact other (inv.apart u t a has carries)
      · exact (inv.carried u a has).1 member
  · change Chain s.next (s.next mp) nodes
    rw [show s.next mp = s.workq from known]
    exact inv.chain
  · intro a member
    obtain rfl | member := List.mem_cons.1 member
    · exact handed
    · exact inv.listed a member
  · rw [goto_self]
    exact iff_of_true trivial ((inv.holds t).1 critical)
  · rw [goto_self]
    trivial
  · intro a has
    rw [goto_self] at has
    cases has
  · intro u _ a has
    rw [goto_self] at has
    cases has

/-- Everything that the next step of a thread can be. -/
theorem State.Inv.run (inv : s.Inv nodes) (runs : s.run t = some s') : ∃ new nodes', s'.Inv nodes' ∧
    s'.pc = Function.update s.pc t new ∧ Course (s.pc t) nodes.length new nodes'.length := by
  have known := inv.place t
  cases here : s.pc t
  all_goals
    simp only [State.run, here] at runs
    rw [here] at known
  case idle | fault | blocked | signal => cases runs
  case lock =>
    obtain ⟨rfl, inv'⟩ := inv.lockMutex runs trivial trivial (by simp [Pc.carries])
    exact ⟨_, nodes, inv', rfl, .lock _⟩
  case woken =>
    obtain ⟨rfl, inv'⟩ := inv.lockMutex runs trivial trivial (by simp [Pc.carries])
    exact ⟨_, nodes, inv', rfl, .woken _⟩
  case enqueueLock mp =>
    obtain ⟨rfl, inv'⟩ := inv.lockMutex runs trivial trivial (by simp [Pc.carries, here])
    exact ⟨_, nodes, inv', rfl, .enqueueLock mp _⟩
  case test =>
    obtain rfl := Option.some.inj runs
    by_cases empty : s.workq = none
    · rw [if_pos empty]
      obtain rfl : nodes = [] := List.head?_eq_none_iff.1 (inv.chain.first_eq.symm.trans empty)
      exact ⟨_, [], inv.goto (by simp [Pc.critical, here]) rfl (by simp [Pc.carries]),
        rfl, .nothing⟩
    · rw [if_neg empty]
      have some : nodes ≠ [] := fun none => empty (inv.chain.first_eq.trans (by rw [none]; rfl))
      exact ⟨_, nodes, inv.goto (by simp [Pc.critical, here]) some (by simp [Pc.carries]),
        rfl, .found _⟩
  case wait =>
    obtain rfl := Option.some.inj runs
    obtain ⟨same, inv'⟩ :=
      inv.unlockMutex .blocked (t := t) (by simp [Pc.critical, here]) id
      trivial (by simp [Pc.carries])
    obtain rfl : nodes = [] := known
    exact ⟨_, [], inv', by rw [same]; rfl, .wait⟩
  case load =>
    cases first : s.workq with
    | none => exact absurd (List.head?_eq_none_iff.1 (inv.chain.first_eq.symm.trans first)) known
    | some mp =>
      rw [first] at runs
      obtain rfl := Option.some.inj runs
      have head : nodes.head? = some mp := inv.chain.first_eq.symm.trans first
      exact ⟨_, nodes, inv.goto (by simp [Pc.critical, here]) head (by simp [Pc.carries]), rfl,
        .load mp _⟩
  case take mp =>
    obtain rfl := Option.some.inj runs
    obtain ⟨rest, rfl, inv'⟩ := inv.take here
    exact ⟨_, rest, inv', rfl, .take mp _⟩
  case unlock mp =>
    obtain rfl := Option.some.inj runs
    obtain ⟨same, inv'⟩ :=
      inv.unlockMutex (.process mp) (t := t) (by simp [Pc.critical, here]) id known
      (by simp [Pc.carries, here])
    exact ⟨_, nodes, inv', by rw [same]; rfl, .unlock mp _⟩
  case process mp =>
    obtain rfl := Option.some.inj runs
    exact ⟨_, nodes, inv.process here, rfl, .process mp _⟩
  case link mp =>
    obtain rfl := Option.some.inj runs
    exact ⟨_, nodes, inv.link here, rfl, .link mp _⟩
  case publish mp =>
    obtain rfl := Option.some.inj runs
    exact ⟨_, mp :: nodes, inv.publish here, rfl, .publish mp _⟩
  case enqueueUnlock =>
    obtain rfl := Option.some.inj runs
    obtain ⟨same, inv'⟩ :=
      inv.unlockMutex .signal (t := t) (by simp [Pc.critical, here]) id
      trivial (by simp [Pc.carries])
    exact ⟨_, nodes, inv', by rw [same]; rfl, .enqueueUnlock _⟩

theorem State.Inv.enqueueMsg (inv : s.Inv nodes) (idle : s.pc t = .idle)
    (fresh : s.handed mp = false) :
    State.Inv ({ s with handed := Function.update s.handed mp true }.goto t (.enqueueLock mp))
      nodes := by
  have kept {a : Nat} (handed : s.handed a = true) : Function.update s.handed mp true a = true := by
    rw [Function.update_apply]
    split
    · rfl
    · exact handed
  have outside : mp ∉ nodes := fun member => by simp [inv.listed mp member] at fresh
  refine inv.next (t := t) ⟨fun u other => goto_other _ _ other, fun _ _ => .rfl,
    fun u _ known => place_of_same rfl rfl rfl known,
    fun u _ a has => ⟨(inv.carried u a has).1, kept (inv.carried u a has).2⟩⟩ inv.stacked
      inv.distinct inv.chain
    (fun a member => kept (inv.listed a member)) ?_ ?_ ?_ ?_
  · rw [goto_self]
    refine iff_of_false id fun held => ?_
    have critical := (inv.holds t).2 held
    rw [idle] at critical
    exact critical
  · rw [goto_self]
    trivial
  · intro a has
    rw [goto_self] at has
    obtain rfl := Option.some.inj has
    exact ⟨outside, Function.update_self ..⟩
  · intro u _ a has there
    rw [goto_self] at has
    obtain rfl := Option.some.inj has
    simp [(inv.carried u mp there).2] at fresh

theorem wake_pc {woken : Finset ι} (slept : ∀ u ∈ woken, s.pc u = .blocked) (u : ι) :
    (s.wake woken).pc u = s.pc u ∨ (s.wake woken).pc u = .woken ∧ s.pc u = .blocked := by
  simp only [State.wake]
  split
  · rename_i member
    exact .inr ⟨rfl, slept u member⟩
  · exact .inl rfl

theorem State.Inv.wake (inv : s.Inv nodes) {woken : Finset ι}
    (slept : ∀ u ∈ woken, s.pc u = .blocked) :
    (s.wake woken).Inv nodes := by
  have carries {u : ι} {mp : Nat} (has : ((s.wake woken).pc u).carries = some mp) :
      (s.pc u).carries = some mp := by
    obtain same | ⟨new, -⟩ := wake_pc slept u
    · rwa [same] at has
    · simp [new, Pc.carries] at has
  refine ⟨inv.stacked, inv.distinct, inv.chain, inv.listed, fun u => ?_, fun u => ?_,
    fun u mp has => ?_,
    fun u v mp hasU hasV => ?_⟩
  · rw [show (s.wake woken).qlock = s.qlock from rfl, ← inv.holds u]
    obtain same | ⟨new, old⟩ := wake_pc slept u
    · rw [same]
    · rw [new, old]
      exact .rfl
  · obtain same | ⟨new, -⟩ := wake_pc slept u
    · rw [same]
      exact place_of_same rfl rfl rfl (inv.place u)
    · rw [new]
      trivial
  · exact inv.carried u mp (carries has)
  · exact inv.apart u v mp (carries hasU) (carries hasV)

end

/-! ## Who is afoot -/

def Pc.role : Pc → Role
  | .lock | .woken | .test | .wait | .load | .take _ => .coming
  | .enqueueUnlock | .signal => .owing
  | .blocked => .asleep
  | _ => .away

def State.crowd (s : State ι) (items : Nat) : Crowd ι := ⟨fun t => (s.pc t).role, items⟩

section

variable {s s' : State ι} {nodes nodes' : List Nat} {t : ι} {old new pc : Pc} {n n' : Nat}

theorem crowd_update (moves : s'.pc = Function.update s.pc t new) :
    s'.crowd n = ⟨Function.update (s.crowd n).role t new.role, n⟩ := by
  simp only [State.crowd, moves]
  congr 1
  exact funext fun u => Function.apply_update (fun _ => Pc.role) s.pc t new u

theorem crowd_same (moves : s'.pc = Function.update s.pc t new) (role : (s.pc t).role = new.role) :
    s'.crowd n = s.crowd n := by
  rw [crowd_update moves, ← role]
  exact congrArg (Crowd.mk · n) (Function.update_eq_self t (s.crowd n).role)

theorem blocked_of_asleep (asleep : pc.role = .asleep) : pc = .blocked := by
  cases pc <;> first | rfl | cases asleep

/-- A step of a thread is nothing for the others, or what a thread at a condition variable may
do. -/
theorem Course.turn (course : Course (s.pc t) n new n')
    (moves : s'.pc = Function.update s.pc t new) :
    s'.crowd n' = s.crowd n ∨ (s.crowd n).Turn (s'.crowd n') := by
  generalize here : s.pc t = old at course
  have role : (s.crowd n).role t = old.role := congrArg Pc.role here
  cases course with
  | lock | woken | nothing | found | load | unlock | enqueueLock | link | enqueueUnlock =>
    exact .inl (crowd_same moves (by rw [here]; rfl))
  | wait =>
    rw [crowd_update moves]
    exact .inr (.doze role rfl)
  | take mp =>
    rw [crowd_update moves]
    exact .inr (.take role rfl)
  | process =>
    rw [crowd_update moves]
    exact .inr (.come role)
  | publish =>
    rw [crowd_update moves]
    exact .inr (.put role)

variable [Fintype ι] {action : Action ι}

theorem State.Inv.step (inv : s.Inv nodes) (steps : s.step action = some s') :
    ∃ nodes', s'.Inv nodes' ∧
    (s'.crowd nodes'.length = s.crowd nodes.length ∨
    (s.crowd nodes.length).Turn (s'.crowd nodes'.length)) := by
  cases action with
  | run t =>
    obtain ⟨new, nodes', inv', moves, course⟩ := inv.run steps
    exact ⟨nodes', inv', course.turn moves⟩
  | processMsg t =>
    obtain ⟨idle, rest⟩ := Option.ite_none_right_eq_some.1 steps
    obtain rfl := Option.some.inj rest
    refine ⟨nodes, inv.goto (by simp [Pc.critical, idle]) trivial (by simp [Pc.carries]), .inr ?_⟩
    rw [crowd_update (goto_moves s t .lock)]
    exact .come (congrArg Pc.role idle)
  | enqueueMsg t mp =>
    obtain ⟨⟨idle, fresh⟩, rest⟩ := Option.ite_none_right_eq_some.1 steps
    obtain rfl := Option.some.inj rest
    exact ⟨nodes, inv.enqueueMsg idle fresh, .inl (crowd_same (t := t) rfl (by rw [idle]; rfl))⟩
  | signal t woken =>
    obtain ⟨⟨here, slept, wakes⟩, rest⟩ := Option.ite_none_right_eq_some.1 steps
    obtain rfl := Option.some.inj rest
    have still : (s.wake woken).pc t = .signal := by
      obtain same | ⟨-, old⟩ := wake_pc slept t
      · rw [same, here]
      · simp [here] at old
    refine ⟨nodes, (inv.wake slept).goto
      (by simp [Pc.critical, still]) trivial (by simp [Pc.carries]), .inr ?_⟩
    have roles : ((s.wake woken).crowd nodes.length).role =
        fun u => if u ∈ woken then .coming else (s.crowd nodes.length).role u := by
      funext u
      simp only [State.crowd, State.wake]
      split <;> rfl
    rw [crowd_update (goto_moves _ t .idle), roles]
    refine .signal (congrArg Pc.role here) (fun u member => congrArg Pc.role (slept u member))
      (wakes.imp_right fun nobody u asleep => nobody u ?_)
    exact blocked_of_asleep asleep
  | spurious t =>
    obtain ⟨blocked, rest⟩ := Option.ite_none_right_eq_some.1 steps
    obtain rfl := Option.some.inj rest
    refine ⟨nodes, inv.goto (by simp [Pc.critical, blocked]) trivial (by simp [Pc.carries]),
      .inr ?_⟩
    rw [crowd_update (goto_moves s t .woken)]
    exact .spurious (congrArg Pc.role blocked)

/-- What holds in every state. -/
def State.Reached (s : State ι) : Prop := s.Inv s.messages ∧ (s.crowd s.messages.length).Served

omit [Fintype ι] in
theorem State.Inv.messages_eq (inv : s.Inv nodes) : s.messages = nodes := by
  rw [State.messages, inv.stacked, Option.getD_some]

theorem State.Reached.start (next : Nat → Option Nat) : (State.start next : State ι).Reached := by
  refine ⟨.start next, ?_⟩
  rintro ⟨t, asleep⟩
  cases asleep

theorem State.Reached.step (reached : s.Reached) (steps : s.step action = some s') :
    s'.Reached := by
  obtain ⟨nodes', inv', turns⟩ := reached.1.step steps
  rw [State.Reached, inv'.messages_eq]
  refine ⟨inv', ?_⟩
  obtain same | turn := turns
  · rw [same]
    exact reached.2
  · exact reached.2.turn turn

theorem State.Reached.of_visits {next : Nat → Option Nat} {actions : List (Action ι)}
    (visits : Visits State.step (State.start next) actions s) : s.Reached :=
  visits.invariant _ (fun _ _ => True) (.start next)
    (fun _ _ _ reached _ steps => reached.step steps) fun _ _ _ => trivial

/-! ## Every run -/

/-- The list holds what has been put and not taken, the newest message first; every message taken
was its first one then.  Nobody runs into a null pointer, and a message that is being processed is
the one its thread has taken last, on no list, and no other thread's. -/
theorem messages_in_order {next : Nat → Option Nat} {actions : List (Action ι)}
    (visits : Visits State.step (State.start next) actions s) :
    execute stack [] s.history = some s.messages ∧
      Chain s.next s.workq s.messages ∧ s.messages.Nodup ∧ (∀ t, s.pc t ≠ .fault) ∧
      ∀ t mp, s.pc t = .process mp → latest s.history t = some (.take t mp) ∧ mp ∉ s.messages ∧
        ∀ u, s.pc u = .process mp → u = t := by
  obtain ⟨inv, -⟩ := State.Reached.of_visits visits
  refine ⟨inv.stacked, inv.chain, inv.distinct, fun t fault => ?_, fun t mp here => ?_⟩
  · have known := inv.place t
    rwa [fault] at known
  · have known := inv.place t
    rw [here] at known
    have carries {u : ι} (there : s.pc u = .process mp) : (s.pc u).carries = some mp := by
      rw [there]
      rfl
    exact ⟨known, (inv.carried t mp (carries here)).1,
      fun u there => inv.apart u t mp (carries there) (carries here)⟩

/-- The thread `false` waits for messages, and the thread `true` puts one. -/
def firstMessage : List (Action Bool) :=
  .processMsg false :: List.replicate 3 (.run false) ++
    .enqueueMsg true 8 :: List.replicate 4 (.run true)

/-- Another message comes before the first is taken. -/
def secondMessage : List (Action Bool) :=
  firstMessage ++ .signal true {false} :: .enqueueMsg true 9 :: List.replicate 4 (.run true) ++
    List.replicate 5 (.run false)

theorem messages_in_order_second :
    ∃ s, execute State.step (.start fun _ => none) secondMessage = some s ∧
    s.pc false = .process 9 ∧ s.messages = [8] ∧ latest s.history false = some (.take false 9) ∧
      9 ∉ s.messages := by
  have taken : (execute State.step (.start fun _ => none) secondMessage).any
      (fun s => s.pc false = .process 9 ∧ s.messages = [8]) = true := by
    decide +kernel
  obtain ⟨s, runs, ends⟩ := (Option.any_eq_true _ _).mp taken
  obtain ⟨here, rest⟩ := of_decide_eq_true ends
  obtain ⟨-, -, -, -, mine⟩ := messages_in_order (.finish runs)
  obtain ⟨last, gone, -⟩ := mine false 9 here
  exact ⟨s, runs, here, rest, last, gone⟩

/-- While a consumer sleeps, at least as many threads are on their way to `workq`, or about to
signal, as there are messages. -/
theorem enough_on_their_way {next : Nat → Option Nat} {actions : List (Action ι)}
    (visits : Visits State.step (State.start next) actions s) (blocked : s.pc t = .blocked) :
    s.messages.length ≤ (Finset.univ.filter fun u => (s.pc u).role = .coming ∨
      (s.pc u).role = .owing).card :=
  (State.Reached.of_visits visits).2 ⟨t, congrArg Pc.role blocked⟩

theorem enough_on_their_way_first :
    ∃ s, execute State.step (.start fun _ => none) firstMessage = some s ∧ s.pc false = .blocked ∧
    s.messages.length = 1 ∧ 1 ≤ (Finset.univ.filter fun u => (s.pc u).role = .coming ∨
      (s.pc u).role = .owing).card := by
  have waits : (execute State.step (.start fun _ => none) firstMessage).any
      (fun s => s.pc false = .blocked ∧ s.messages.length = 1) = true := by
    decide +kernel
  obtain ⟨s, runs, ends⟩ := (Option.any_eq_true _ _).mp waits
  obtain ⟨blocked, one⟩ := of_decide_eq_true ends
  have enough := enough_on_their_way (.finish runs) blocked
  rw [one] at enough
  exact ⟨s, runs, blocked, one, enough⟩

/-! ## The end of the work -/

/-- The steps a thread has at most before it, if it finds no message; `n` is the number of
threads. -/
def Pc.weight (n : Nat) : Pc → Nat
  | .idle | .fault | .blocked => 0
  | .wait => 1
  | .take _ => 2
  | .load => 3
  | .test => 4
  | .lock | .woken => 5
  | .process _ => 6
  | .unlock _ => 7
  | .signal => n * 5 + 1
  | .enqueueUnlock => n * 5 + 2
  | .publish _ => n * 5 + 9
  | .link _ => n * 5 + 10
  | .enqueueLock _ => n * 5 + 11

/-- A bound on the steps that are left to all of them. -/
def State.potential (s : State ι) (items : Nat) : Nat :=
  workload (fun t => (s.pc t).weight (Fintype.card ι)) + items * 6

theorem potential_update (moves : s'.pc = Function.update s.pc t new) :
    s'.potential n + (s.pc t).weight (Fintype.card ι) = s.potential n +
      new.weight (Fintype.card ι) := by
  have weights : (fun u => (s'.pc u).weight (Fintype.card ι)) =
      Function.update (fun u => (s.pc u).weight (Fintype.card ι)) t
        (new.weight (Fintype.card ι)) := by
    rw [moves]
    exact funext fun u => Function.apply_update (fun _ => Pc.weight (Fintype.card ι)) s.pc t new u
  have updated := workload_update (fun u => (s.pc u).weight (Fintype.card ι)) t
    (new.weight (Fintype.card ι))
  simp only [State.potential, weights]
  omega

theorem Course.falls (course : Course (s.pc t) n new n')
    (moves : s'.pc = Function.update s.pc t new) :
    s'.potential n' < s.potential n := by
  have updated := potential_update (n := n) moves
  have items : s'.potential n' + n * 6 = s'.potential n + n' * 6 := by
    simp only [State.potential]
    omega
  generalize s.pc t = old at course updated
  cases course <;> simp only [Pc.weight] at updated <;> omega

/-- The steps that no new call and no accident brings. -/
def Action.Onward : Action ι → Prop
  | .run _ | .signal _ _ => True
  | _ => False

theorem State.Reached.falls (reached : s.Reached) (onward : action.Onward)
    (steps : s.step action = some s') :
    s'.Reached ∧ s'.potential s'.messages.length < s.potential s.messages.length := by
  refine ⟨reached.step steps, ?_⟩
  cases action with
  | run t =>
    obtain ⟨new, nodes', inv', moves, course⟩ := reached.1.run steps
    rw [inv'.messages_eq]
    exact course.falls moves
  | signal t woken =>
    obtain ⟨⟨here, slept, -⟩, rest⟩ := Option.ite_none_right_eq_some.1 steps
    obtain rfl := Option.some.inj rest
    have still : (s.wake woken).pc t = .signal := by
      obtain same | ⟨-, old⟩ := wake_pc slept t
      · rw [same, here]
      · simp [here] at old
    -- everybody that is woken has five steps more
    have most : workload (fun u => ((s.wake woken).pc u).weight (Fintype.card ι)) ≤
        workload (fun u => (s.pc u).weight (Fintype.card ι)) + Fintype.card ι * 5 := by
      refine workload_le fun u => ?_
      obtain same | ⟨new, old⟩ := wake_pc slept u
      · rw [same]
        exact Nat.le_add_right _ _
      · rw [new, old]
        exact Nat.le_refl _
    have updated := potential_update (n := s.messages.length) (goto_moves (s.wake woken) t .idle)
    have before : ((s.wake woken).pc t).weight (Fintype.card ι) = Fintype.card ι * 5 + 1 := by
      rw [still]; rfl
    have after : Pc.idle.weight (Fintype.card ι) = 0 := rfl
    change State.potential _ s.messages.length < _
    simp only [State.potential] at updated ⊢
    omega
  | processMsg t | enqueueMsg t mp | spurious t => exact onward.elim

/-- Where nobody can go on, everybody is idle or sleeps. -/
theorem State.Reached.stuck (reached : s.Reached)
    (stuck : ∀ action : Action ι, action.Onward → s.step action = none) (t : ι) :
    s.pc t = .idle ∨ s.pc t = .blocked := by
  -- a thread in a critical section can go on
  have inside {u : ι} (critical : (s.pc u).critical) : False := by
    have none : s.run u = none := stuck (.run u) trivial
    cases here : s.pc u <;> simp only [State.run, here] at none <;> first
      | (rw [here] at critical; exact critical)
      | cases none
      | skip
    cases first : s.workq <;> simp [first] at none
  have free : s.qlock = none := by
    cases held : s.qlock with
    | none => rfl
    | some u => exact (inside ((reached.1.holds u).2 held)).elim
  have none : s.run t = none := stuck (.run t) trivial
  cases here : s.pc t <;> simp only [State.run, here, State.lockMutex, free] at none
  case idle => exact .inl rfl
  case blocked => exact .inr rfl
  case fault =>
    have known := reached.1.place t
    rw [here] at known
    exact known.elim
  case signal =>
    let sleepers : Finset ι := Finset.univ.filter fun u => s.pc u = .blocked
    have wakes : sleepers.Nonempty ∨ ∀ u, s.pc u ≠ .blocked := by
      by_cases nobody : ∀ u, s.pc u ≠ .blocked
      · exact .inr nobody
      · obtain ⟨u, asleep⟩ := not_forall_not.1 nobody
        exact .inl ⟨u, by simpa [sleepers] using asleep⟩
    have goes : s.step (.signal t sleepers) = some ((s.wake sleepers).goto t .idle) :=
      if_pos ⟨here, fun u member => by simpa [sleepers] using member, wakes⟩
    rw [stuck (.signal t sleepers) trivial] at goes
    cases goes
  all_goals exact (inside (by rw [here]; trivial)).elim

/-- Whatever has happened and in whatever order the threads go on: without new calls their steps
come to an end, and then no message is left if any thread is a consumer. -/
theorem drained {next : Nat → Option Nat} {actions more : List (Action ι)}
    (visits : Visits State.step (State.start next) actions s)
    (onward : ∀ action ∈ more, action.Onward)
    (runs : execute State.step s more = some s') : more.length ≤ s.potential s.messages.length ∧
      ((∀ action : Action ι, action.Onward → s'.step action = none) → (∃ t, s'.pc t ≠ .idle) →
        s'.messages = [] ∧ s'.workq = none) := by
  have falls (s : State ι) (action : Action ι) (s' : State ι)
      (reached : s.Reached) (allowed : action.Onward)
      (steps : s.step action = some s') :
        s'.Reached ∧ s'.potential s'.messages.length < s.potential s.messages.length :=
    reached.falls allowed steps
  obtain ⟨reached, bound⟩ := execute_potential falls (.of_visits visits) runs onward
  refine ⟨by omega, fun stuck somebody => ?_⟩
  obtain ⟨t, busy⟩ := somebody
  have places := reached.stuck stuck
  have asleep : s'.pc t = .blocked := (places t).resolve_left busy
  have nothing : s'.messages.length = 0 := by
    refine reached.2.nothing (t := t) (congrArg Pc.role asleep) fun u afoot => ?_
    change (s'.pc u).role.afoot at afoot
    obtain idle | blocked := places u
    · simp [idle, Pc.role, Role.afoot] at afoot
    · simp [blocked, Pc.role, Role.afoot] at afoot
  have empty := List.length_eq_zero_iff.1 nothing
  refine ⟨empty, ?_⟩
  rw [reached.1.chain.first_eq, empty]
  rfl

/-- Both messages are taken, and the consumer sleeps again. -/
def lastSteps : List (Action Bool) := .signal true ∅ :: List.replicate 10 (.run false)

theorem drained_second : ∃ s s', execute State.step (.start fun _ => none) secondMessage = some s ∧
    execute State.step s lastSteps = some s' ∧ 11 ≤ s.potential s.messages.length ∧
      s'.messages = [] ∧ s'.workq = none := by
  have done : (execute State.step (.start fun _ => none) secondMessage).any
      (fun s => (execute State.step s lastSteps).any
      fun s' => s'.pc false = .blocked ∧ s'.pc true = .idle) = true := by
    decide +kernel
  obtain ⟨s, runs, ends⟩ := (Option.any_eq_true _ _).mp done
  obtain ⟨s', runs', ends⟩ := (Option.any_eq_true _ _).mp ends
  obtain ⟨blocked, idle⟩ := of_decide_eq_true ends
  obtain ⟨few, last⟩ := drained (.finish runs) (by simp [lastSteps, Action.Onward]) runs'
  have places (t : Bool) : s'.pc t = .blocked ∨ s'.pc t = .idle := by
    cases t with
    | false => exact .inl blocked
    | true => exact .inr idle
  refine ⟨s, s', runs, runs', few, last (fun action onward => ?_) ⟨false, by simp [blocked]⟩⟩
  cases action with
  | run t =>
    change s'.run t = none
    obtain here | here := places t <;> simp only [State.run, here]
  | signal t woken =>
    refine if_neg fun goes => ?_
    obtain here | here := places t <;> simp [here] at goes
  | processMsg t | enqueueMsg t mp | spurious t => exact onward.elim

end

end Apue.Threads.WorkQueue
