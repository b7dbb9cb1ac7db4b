import Apue.Base.DoublyLinked
import Apue.Base.Machine
import Apue.Base.Text

/-! # The queue of print jobs

`jobhead` and `jobtail` are the ends of a doubly linked list under `joblock`.  Client threads and
`build_qonstart` add jobs at its end and then signal `jobwait`; the printer thread removes the job
at its head, waits for a signal when there is none, and puts a job it could not print back on the
head.  The critical sections are one action each; the `malloc` before `add_job`'s and the signal
after it are actions of their own, and `jobwait` may wake its waiter at any time.

The state carries the history as well: the jobs in the order they were added, so that a job is named
by its number in that order, and what the printer thread has done with them.
-/

namespace Apue.Printer

open Apue.Base

/-- `struct printreq`, in host byte order. -/
structure PrintReq where
  size : Nat
  flags : Nat
  usernm : Bytes
  jobnm : Bytes
  deriving DecidableEq, Repr

/-- `struct job`, less its links. -/
structure Job where
  jobid : Int
  req : PrintReq
  deriving DecidableEq, Repr

/-! ## The code -/

structure JobList where
  heap : Heap Job
  jobhead : Option Nat
  jobtail : Option Nat

/-- The critical section of `add_job`. -/
def addJob (jp : Nat) (q : JobList) : Option JobList :=
  match q.heap.adjust (some jp) fun node => { node with prev := q.jobtail } with
  | none => none
  | some heap =>
    match q.jobtail with
    | none => some { heap := heap, jobhead := some jp, jobtail := some jp }
    | some tail => (heap.adjust (some tail) fun node => { node with next := some jp }).map fun heap =>
        { heap := heap, jobhead := q.jobhead, jobtail := some jp }

def replaceJob (jp : Nat) (q : JobList) : Option JobList :=
  match q.heap.adjust (some jp) fun node => { node with prev := none, next := q.jobhead } with
  | none => none
  | some heap =>
    match q.jobhead with
    | none => some { heap := heap, jobhead := some jp, jobtail := some jp }
    | some head => (heap.adjust (some head) fun node => { node with prev := some jp }).map fun heap =>
        { heap := heap, jobhead := some jp, jobtail := q.jobtail }

/-- The first half of `remove_job`: what follows the target. -/
def removeNext (node : Node Job) (q : JobList) : Option JobList :=
  match node.next with
  | some next => (q.heap.adjust (some next) fun after => { after with prev := node.prev }).map fun heap =>
      { q with heap := heap }
  | none => some { q with jobtail := node.prev }

def removeJob (target : Nat) (q : JobList) : Option JobList :=
  match q.heap target with
  | none => none
  | some node =>
    match removeNext node q with
    | none => none
    | some q =>
      match q.heap target with
      | none => none
      | some node =>
        match node.prev with
        | some prev => (q.heap.adjust (some prev) fun before => { before with next := node.next }).map fun heap =>
            { q with heap := heap }
        | none => some { q with jobhead := node.next }

/-! ## The threads -/

/-- A thread that adds jobs: a client thread, or the main thread in `build_qonstart`. -/
inductive Adder where
  | idle
  /-- The job is allocated and filled in. -/
  | adding (jp : Nat)
  /-- The job is on the queue, `pthread_cond_signal` is still to come. -/
  | signalling
  deriving DecidableEq

inductive PrinterThread where
  /-- About to look at `jobhead` under `joblock`. -/
  | polling
  /-- Blocked in `pthread_cond_wait`. -/
  | waiting
  | working (jp : Nat)
  deriving DecidableEq

/-- What the printer thread does with a job. -/
inductive JobEvent where
  | picked (n : Nat)
  | deferred (n : Nat)
  | dropped (n : Nat)
  deriving DecidableEq

structure Spooler where
  list : JobList
  adders : Nat → Adder
  printer : PrinterThread
  /-- The jobs in the order they were put on the queue. -/
  added : List Job
  /-- The number in that order of the job at an address. -/
  number : Nat → Nat
  log : List JobEvent

def Spooler.start : Spooler :=
  ⟨⟨fun _ => none, none, none⟩, fun _ => .idle, .polling, [], fun _ => 0, []⟩

inductive JobAction where
  | malloc (tid jp : Nat) (job : Job)
  | add (tid : Nat)
  | signal (tid : Nat)
  /-- A spurious wake-up. -/
  | wake
  | poll
  | defer
  | drop
  deriving DecidableEq

def Spooler.step (s : Spooler) : JobAction → Option Spooler
  | .malloc tid jp job =>
    match s.adders tid, s.list.heap jp with
    | .idle, none => some { s with
        list := { s.list with heap := Function.update s.list.heap jp (some ⟨none, none, job⟩) }
        adders := Function.update s.adders tid (.adding jp) }
    | _, _ => none
  | .add tid =>
    match s.adders tid with
    | .adding jp =>
      match s.list.heap jp with
      | none => none
      | some node => (addJob jp s.list).map fun list => { s with
          list := list
          adders := Function.update s.adders tid .signalling
          added := s.added ++ [node.val]
          number := Function.update s.number jp s.added.length }
    | _ => none
  | .signal tid =>
    match s.adders tid with
    | .signalling => some { s with
        adders := Function.update s.adders tid .idle
        printer := if s.printer = .waiting then .polling else s.printer }
    | _ => none
  | .wake => if s.printer = .waiting then some { s with printer := .polling } else none
  | .poll =>
    match s.printer, s.list.jobhead with
    | .polling, none => some { s with printer := .waiting }
    | .polling, some jp => (removeJob jp s.list).map fun list => { s with
        list := list
        printer := .working jp
        log := s.log ++ [.picked (s.number jp)] }
    | _, _ => none
  | .defer =>
    match s.printer with
    | .working jp => (replaceJob jp s.list).map fun list => { s with
        list := list
        printer := .polling
        log := s.log ++ [.deferred (s.number jp)] }
    | _ => none
  | .drop =>
    match s.printer with
    | .working jp => some { s with
        list := { s.list with heap := Function.update s.list.heap jp none }
        printer := .polling
        log := s.log ++ [.dropped (s.number jp)] }
    | _ => none

/-! ## What the queue is for -/

/-- Which event may come after which: jobs are picked up in order, and a deferred one is picked up
again first. -/
def JobEvent.Next : Option JobEvent → JobEvent → Prop
  | none, .picked n => n = 0
  | some (.picked m), .deferred n => n = m
  | some (.picked m), .dropped n => n = m
  | some (.deferred m), .picked n => n = m
  | some (.dropped m), .picked n => n = m + 1
  | _, _ => False

def InOrder (log : List JobEvent) : Prop := ∀ before event after, log = before ++ event :: after →
  JobEvent.Next before.getLast? event

/-- The numbers of the jobs the printer thread has freed. -/
def Spooler.freed (s : Spooler) : List Nat := s.log.filterMap fun
  | .dropped n => some n
  | _ => none

/-- The number of the job the printer thread has in hand. -/
def PrinterThread.held (number : Nat → Nat) : PrinterThread → List Nat
  | .working jp => [number jp]
  | _ => []

def Spooler.held (s : Spooler) : List Nat := s.printer.held s.number

structure Spooler.Sound (s : Spooler) : Prop where
  /-- The list is consistent, and freed, held and queued jobs together are all jobs ever added, each
  once. -/
  jobs : ∃ nodes, s.list.jobhead = nodes.head? ∧ s.list.jobtail = nodes.getLast? ∧
    DoublyLinked s.list.heap nodes ∧
    s.freed ++ s.held ++ nodes.map s.number = List.range s.added.length ∧
    ∀ a ∈ nodes, (s.list.heap a).map Node.val = s.added[s.number a]?
  inOrder : InOrder s.log
  /-- The printer thread does not sleep on a job whose signal has been sent. -/
  awake : s.printer = .waiting → s.list.jobhead ≠ none → ∃ tid, s.adders tid = .signalling
  /-- No critical section follows a pointer to a freed job. -/
  safe : (∀ tid jp, s.adders tid = .adding jp → (s.step (.add tid)).isSome) ∧
    (s.printer = .polling → (s.step .poll).isSome) ∧
    ∀ jp, s.printer = .working jp → (s.step .defer).isSome ∧ (s.step .drop).isSome

/-! ## The critical sections on the list -/

variable {q : JobList} {nodes : List Nat} {jp : Nat}

structure JobList.Is (q : JobList) (nodes : List Nat) : Prop where
  head : q.jobhead = nodes.head?
  tail : q.jobtail = nodes.getLast?
  linked : DoublyLinked q.heap nodes

/-- `q'` differs from `q` in the pointers of the given nodes and of the one that moves. -/
def JobList.Moves (q q' : JobList) (jp : Nat) (nodes : List Nat) : Prop :=
  q.heap.SameValues q'.heap ∧ ∀ a, a ∉ nodes → a ≠ jp → q'.heap a = q.heap a

/-- A pointer of the moving node itself is set. -/
theorem adjust_self {heap : Heap Job} {node : Node Job} (here : heap jp = some node)
    (change : Node Job → Node Job) :
    heap.adjust (some jp) change = some (Function.update heap jp (some (change node))) := by
  simp [Heap.adjust, here]

theorem JobList.Is.update (list : q.Is nodes) (fresh : jp ∉ nodes) (node : Option (Node Job)) :
    DoublyLinked (Function.update q.heap jp node) nodes := by
  refine list.linked.congr fun a member => ?_
  have other : a ≠ jp := fun same => fresh (same ▸ member)
  simp [other]

theorem JobList.Is.addJob {job : Job} {prev : Option Nat} (list : q.Is nodes) (fresh : jp ∉ nodes)
    (here : q.heap jp = some ⟨none, prev, job⟩) :
    ∃ q', addJob jp q = some q' ∧ q'.Is (nodes ++ [jp]) ∧ q.Moves q' jp nodes := by
  have spot : Function.update q.heap jp (some ⟨none, q.jobtail, job⟩) jp =
      some ⟨none, nodes.getLast?, job⟩ := by
    simp [list.tail]
  obtain ⟨heap', writes, pushed, values⟩ := (list.update fresh _).pushBack fresh spot
  have before : q.heap.SameValues (Function.update q.heap jp (some ⟨none, q.jobtail, job⟩)) := by
    intro a
    by_cases same : a = jp <;> simp [same, here]
  have moves : q.heap.SameValues heap' ∧ ∀ a, a ∉ nodes → a ≠ jp → heap' a = q.heap a := by
    refine ⟨before.trans values, fun a outside other => ?_⟩
    rw [Heap.adjust_other writes fun last => outside (List.mem_of_getLast? last)]
    simp [other]
  simp only [Printer.addJob, adjust_self here]
  rw [list.tail] at writes ⊢
  cases tail : nodes.getLast? with
  | none =>
    obtain rfl : nodes = [] := by simpa using tail
    simp only [List.getLast?_nil, Heap.adjust, Option.some.injEq] at writes
    exact ⟨⟨heap', some jp, some jp⟩, by simp [← writes], ⟨by simp, by simp, pushed⟩, moves⟩
  | some last =>
    have more : nodes ≠ [] := by
      intro empty
      simp [empty] at tail
    rw [tail] at writes
    refine ⟨⟨heap', q.jobhead, some jp⟩, by simp [writes], ⟨?_, by simp, pushed⟩, moves⟩
    simp [list.head, List.head?_append, List.head?_eq_some_head more]

theorem JobList.Is.replaceJob {node : Node Job} (list : q.Is nodes) (fresh : jp ∉ nodes)
    (here : q.heap jp = some node) :
    ∃ q', replaceJob jp q = some q' ∧ q'.Is (jp :: nodes) ∧ q.Moves q' jp nodes := by
  have spot : Function.update q.heap jp (some ⟨q.jobhead, none, node.val⟩) jp =
      some ⟨nodes.head?, none, node.val⟩ := by
    simp [list.head]
  obtain ⟨heap', writes, pushed, values⟩ := (list.update fresh _).push fresh spot
  have before : q.heap.SameValues (Function.update q.heap jp
      (some ⟨q.jobhead, none, node.val⟩)) := by
    intro a
    by_cases same : a = jp <;> simp [same, here]
  have moves : q.heap.SameValues heap' ∧ ∀ a, a ∉ nodes → a ≠ jp → heap' a = q.heap a := by
    refine ⟨before.trans values, fun a outside other => ?_⟩
    rw [Heap.adjust_other writes fun first => outside (List.mem_of_head? first)]
    simp [other]
  simp only [Printer.replaceJob, adjust_self here]
  rw [list.head] at writes ⊢
  cases nodes with
  | nil =>
    simp only [List.head?_nil, Heap.adjust, Option.some.injEq] at writes
    exact ⟨⟨heap', some jp, some jp⟩, by simp [← writes], ⟨by simp, by simp, pushed⟩, moves⟩
  | cons first rest =>
    simp only [List.head?_cons] at writes ⊢
    exact ⟨⟨heap', some jp, q.jobtail⟩, by simp [writes], ⟨by simp, by simp [list.tail, List.getLast?_cons], pushed⟩, moves⟩

/-- The printer thread removes the head. -/
theorem JobList.Is.removeJob (list : q.Is (jp :: nodes)) :
    ∃ q', removeJob jp q = some q' ∧ q'.Is nodes ∧ q.Moves q' jp nodes := by
  obtain ⟨val, here⟩ := list.linked.linked [] jp nodes rfl
  obtain ⟨middle, heap', first, kept, second, shorter, values⟩ :=
    DoublyLinked.unlink (show DoublyLinked q.heap ([] ++ jp :: nodes) from list.linked)
  simp only [List.getLast?_nil, Heap.adjust, Option.some.injEq] at second here
  subst second
  have moves : q.heap.SameValues middle ∧ ∀ a, a ∉ nodes → a ≠ jp → middle a = q.heap a :=
    ⟨values, fun a outside _ => Heap.adjust_other first fun head =>
      outside (List.mem_of_head? head)⟩
  have node := kept.trans here
  simp only [Printer.removeJob, here, removeNext]
  cases nodes with
  | nil =>
    simp only [List.head?_nil, Heap.adjust, Option.some.injEq] at first
    subst first
    exact ⟨⟨q.heap, none, none⟩, by simp [here], ⟨by simp, by simp, shorter⟩, moves⟩
  | cons next rest =>
    simp only [List.head?_cons, List.getLast?_nil] at first
    refine ⟨⟨middle, some next, q.jobtail⟩, by simp [first, node], ⟨by simp, ?_, shorter⟩, moves⟩
    simp [list.tail, List.getLast?_cons]

/-! ## Runs -/

/-- How many jobs are done with when the log ends so. -/
def JobEvent.reached : Option JobEvent → Nat
  | none => 0
  | some (.picked n) => n
  | some (.deferred n) => n
  | some (.dropped n) => n + 1

structure Spooler.Tidy (s : Spooler) (nodes : List Nat) : Prop where
  list : s.list.Is nodes
  parts : s.freed ++ s.held ++ nodes.map s.number = List.range s.added.length
  values : ∀ a ∈ nodes, (s.list.heap a).map Node.val = s.added[s.number a]?
  working : ∀ jp, s.printer = .working jp → jp ∉ nodes ∧ ∃ node, s.list.heap jp = some node ∧
    s.added[s.number jp]? = some node.val
  adding : ∀ tid jp, s.adders tid = .adding jp → jp ∉ nodes ∧ s.printer ≠ .working jp ∧
    ∃ prev job, s.list.heap jp = some ⟨none, prev, job⟩
  apart : ∀ tid tid' jp, s.adders tid = .adding jp → s.adders tid' = .adding jp → tid = tid'
  inOrder : InOrder s.log
  reached : JobEvent.reached s.log.getLast? = s.freed.length
  inHand : (∃ n, s.log.getLast? = some (.picked n)) ↔ ∃ jp, s.printer = .working jp
  awake : s.printer = .waiting → nodes ≠ [] → ∃ tid, s.adders tid = .signalling

theorem InOrder.snoc {log : List JobEvent} {event : JobEvent} (inOrder : InOrder log)
    (next : JobEvent.Next log.getLast? event) : InOrder (log ++ [event]) := by
  intro before e after split
  cases List.eq_nil_or_concat' after with
  | inl nil =>
    obtain ⟨rfl, rfl⟩ : log = before ∧ event = e := by
      simpa [nil] using List.append_inj' split (by simp [nil])
    exact next
  | inr more =>
    obtain ⟨front, last, rfl⟩ := more
    have init : log = before ++ e :: front := by
      rw [show before ++ e :: (front ++ [last]) = (before ++ e :: front) ++ [last] by simp] at split
      exact (List.append_inj' split rfl).1
    exact inOrder before e front init

theorem range_at {before after : List Nat} {x n : Nat}
    (split : before ++ x :: after = List.range n) :
    x = before.length := by
  have here : (List.range n)[before.length]? = some x := by simp [← split]
  rw [List.getElem?_eq_some_iff] at here
  obtain ⟨_, here⟩ := here
  simpa using here.symm

theorem Spooler.start_tidy : Spooler.start.Tidy [] where
  list := ⟨rfl, rfl, .empty _⟩
  parts := rfl
  values := by simp
  working := by simp [start]
  adding := by simp [start]
  apart := by simp [start]
  inOrder := by simp [InOrder, start]
  reached := rfl
  inHand := by simp [start]
  awake := by simp [start]

namespace Spooler.Tidy

variable {s s' : Spooler}

/-- The node a thread is about to add is not the one a list operation moves. -/
theorem adding_moved (tidy : s.Tidy nodes) {q' : JobList} (moves : s.list.Moves q' jp nodes)
    {tid a : Nat}
    (isAdding : s.adders tid = .adding a) (other : a ≠ jp) :
    ∃ prev job, q'.heap a = some ⟨none, prev, job⟩ := by
  obtain ⟨outside, _, prev, job, here⟩ := tidy.adding tid a isAdding
  exact ⟨prev, job, by rw [moves.2 a outside other, here]⟩

theorem malloc (tidy : s.Tidy nodes) {tid : Nat} {job : Job} (idle : s.adders tid = .idle)
    (free : s.list.heap jp = none) :
    Tidy { s with
      list := { s.list with heap := Function.update s.list.heap jp (some ⟨none, none, job⟩) }
      adders := Function.update s.adders tid (.adding jp) } nodes := by
  have fresh : jp ∉ nodes := by
    intro member
    obtain ⟨node, here⟩ := tidy.list.linked.allocated member
    simp [free] at here
  have idleOrOther (t a : Nat) (isAdding : Function.update s.adders tid (.adding jp) t =
      .adding a) :
      (t = tid ∧ a = jp) ∨ (t ≠ tid ∧ s.adders t = .adding a ∧ a ≠ jp) := by
    by_cases same : t = tid
    · exact .inl ⟨same, by simpa [same, eq_comm] using isAdding⟩
    · have before : s.adders t = .adding a := by simpa [same] using isAdding
      refine .inr ⟨same, before, fun eq => ?_⟩
      obtain ⟨_, _, prev, job', here⟩ := tidy.adding t a before
      simp [eq, free] at here
  refine ⟨⟨tidy.list.head, tidy.list.tail, tidy.list.update fresh _⟩, tidy.parts, ?_, ?_, ?_, ?_,
    tidy.inOrder,
    tidy.reached, tidy.inHand, ?_⟩
  · intro a member
    have other : a ≠ jp := fun same => fresh (same ▸ member)
    simpa [other] using tidy.values a member
  · intro a works
    obtain ⟨outside, node, here, number⟩ := tidy.working a works
    have other : a ≠ jp := by
      intro same
      simp [same, free] at here
    exact ⟨outside, node, by simpa [other] using here, number⟩
  · intro t a isAdding
    obtain ⟨rfl, rfl⟩ | ⟨_, before, other⟩ := idleOrOther t a isAdding
    · refine ⟨fresh, fun works => ?_, none, job, by simp⟩
      obtain ⟨_, node, here, _⟩ := tidy.working a works
      simp [free] at here
    · obtain ⟨outside, notHeld, prev, job', here⟩ := tidy.adding t a before
      exact ⟨outside, notHeld, prev, job', by simpa [other] using here⟩
  · intro t t' a first second
    obtain ⟨rfl, rfl⟩ | ⟨_, before, other⟩ := idleOrOther t a first
    · obtain ⟨rfl, _⟩ | ⟨_, _, differ⟩ := idleOrOther t' a second
      · rfl
      · exact absurd rfl differ
    · obtain ⟨_, rfl⟩ | ⟨_, before', _⟩ := idleOrOther t' a second
      · exact absurd rfl other
      · exact tidy.apart t t' a before before'
  · intro waits more
    obtain ⟨t, signals⟩ := tidy.awake waits more
    have other : t ≠ tid := by
      intro same
      simp [same, idle] at signals
    exact ⟨t, by simpa [other] using signals⟩

theorem add (tidy : s.Tidy nodes) {tid : Nat} {node : Node Job} {q' : JobList}
    (isAdding : s.adders tid = .adding jp)
    (here : s.list.heap jp = some node) (adds : addJob jp s.list = some q') :
    Tidy { s with
      list := q'
      adders := Function.update s.adders tid .signalling
      added := s.added ++ [node.val]
      number := Function.update s.number jp s.added.length } (nodes ++ [jp]) := by
  obtain ⟨fresh, notHeld, prev, job, spot⟩ := tidy.adding tid jp isAdding
  obtain ⟨q'', adds', list, moves⟩ := tidy.list.addJob fresh spot
  obtain rfl : q' = q'' := by simpa [adds] using adds'
  have val : node.val = job := by
    rw [here] at spot
    simp_all
  have old (a : Nat) (member : a ∈ nodes) : a ≠ jp := fun same => fresh (same ▸ member)
  have idleOrOther (t a : Nat) (isAdding' : Function.update s.adders tid .signalling t =
      .adding a) :
      s.adders t = .adding a ∧ a ≠ jp := by
    by_cases same : t = tid
    · simp [same] at isAdding'
    · have before : s.adders t = .adding a := by simpa [same] using isAdding'
      exact ⟨before, fun eq => same (tidy.apart t tid jp (eq ▸ before) isAdding)⟩
  -- numbers below the new one name the same jobs as before
  have earlier {n : Nat} {job' : Job} (number : s.added[n]? = some job') :
      (s.added ++ [node.val])[n]? = some job' := by
    rw [List.getElem?_append_left ((List.getElem?_eq_some_iff.mp number).1), number]
  have held : s.held = s.printer.held (Function.update s.number jp s.added.length) := by
    unfold Spooler.held
    cases printer : s.printer with
    | working a =>
      have other : a ≠ jp := fun same => notHeld (same ▸ printer)
      simp [PrinterThread.held, other]
    | _ => rfl
  have numbers : nodes.map (Function.update s.number jp s.added.length) = nodes.map s.number :=
    List.map_congr_left fun a member => by simp [old a member]
  refine ⟨list, ?_, ?_, ?_, ?_, ?_, tidy.inOrder, tidy.reached, tidy.inHand, ?_⟩
  · have parts := tidy.parts
    rw [held] at parts
    simp only [List.map_append, List.map_cons, List.map_nil, Function.update_self,
      List.length_append, List.length_singleton,
      List.range_succ, numbers, ← parts, List.append_assoc]
    rfl
  · intro a member
    rw [moves.1 a]
    by_cases same : a = jp
    · subst same
      simp [here]
    · have inside : a ∈ nodes := by simpa [same] using member
      obtain ⟨n, there⟩ := tidy.list.linked.allocated inside
      have value := tidy.values a inside
      simp only [there, Option.map_some] at value ⊢
      simp [same, earlier value.symm]
  · intro a works
    obtain ⟨outside, n, there, number⟩ := tidy.working a works
    have other : a ≠ jp := fun same => notHeld (same ▸ works)
    exact ⟨by simpa [other] using outside, n, by rw [moves.2 a outside other, there], by simp [other, earlier number]⟩
  · intro t a isAdding'
    obtain ⟨before, other⟩ := idleOrOther t a isAdding'
    obtain ⟨outside, notHeld', _⟩ := tidy.adding t a before
    exact ⟨by simpa [other] using outside, notHeld', tidy.adding_moved moves before other⟩
  · intro t t' a first second
    exact tidy.apart t t' a (idleOrOther t a first).1 (idleOrOther t' a second).1
  · intro _ _
    exact ⟨tid, by simp⟩

/-- A step of the printer thread or a signal that leaves the list and the log as they are. -/
theorem wakes (tidy : s.Tidy nodes) {adders : Nat → Adder} {printer : PrinterThread}
    (sameAdding : ∀ t a, adders t = .adding a → s.adders t = .adding a)
    (idle : ∀ jp, s.printer ≠ .working jp → printer ≠ .working jp)
    (busy : ∀ jp, s.printer = .working jp → printer = .working jp)
    (awake : printer = .waiting → nodes ≠ [] → ∃ t, adders t = .signalling) :
    Tidy { s with adders := adders, printer := printer } nodes := by
  have working (jp : Nat) : printer = .working jp ↔ s.printer = .working jp :=
    ⟨fun works => by_contra fun other => idle jp other works, busy jp⟩
  have held : printer.held s.number = s.held := by
    unfold Spooler.held
    cases before : s.printer with
    | working jp => rw [busy jp before]
    | _ =>
      cases after : printer with
      | working jp => simp [(working jp).mp after] at before
      | _ => rfl
  refine ⟨tidy.list, ?_, tidy.values, ?_, ?_, ?_, tidy.inOrder, tidy.reached, ?_, awake⟩
  · have parts := tidy.parts
    rw [← held] at parts
    exact parts
  · intro jp works
    exact tidy.working jp ((working jp).mp works)
  · intro t a isAdding
    obtain ⟨outside, notHeld, rest⟩ := tidy.adding t a (sameAdding t a isAdding)
    exact ⟨outside, fun works => notHeld ((working a).mp works), rest⟩
  · intro t t' a first second
    exact tidy.apart t t' a (sameAdding t a first) (sameAdding t' a second)
  · simp only [working]
    exact tidy.inHand

/-- The number of the job in hand, or of the head of the queue when none is, comes right after the
freed ones. -/
theorem held_number (tidy : s.Tidy nodes) (works : s.printer = .working jp) :
    s.number jp = s.freed.length := by
  have parts := tidy.parts
  simp only [Spooler.held, works, PrinterThread.held, List.append_assoc,
    List.singleton_append] at parts
  exact range_at parts

theorem notPicked (tidy : s.Tidy nodes) (idle : ∀ jp, s.printer ≠ .working jp) (n : Nat) :
    s.log.getLast? ≠ some (.picked n) := by
  intro picked
  obtain ⟨jp, works⟩ := tidy.inHand.mp ⟨n, picked⟩
  exact idle jp works

theorem picked (tidy : s.Tidy nodes) (works : s.printer = .working jp) :
    s.log.getLast? = some (.picked (s.number jp)) := by
  obtain ⟨n, picked⟩ := tidy.inHand.mpr ⟨jp, works⟩
  have reached := tidy.reached
  rw [picked] at reached
  rw [picked, tidy.held_number works, ← reached]
  rfl

theorem poll (tidy : s.Tidy (jp :: nodes)) {q' : JobList} (polls : s.printer = .polling)
    (removes : removeJob jp s.list = some q') :
    Tidy { s with list := q', printer := .working jp, log := s.log ++ [.picked (s.number jp)] }
      nodes := by
  obtain ⟨q'', removes', list, moves⟩ := tidy.list.removeJob
  obtain rfl : q' = q'' := by simpa [removes] using removes'
  obtain ⟨fresh, _⟩ := List.nodup_cons.mp tidy.list.linked.nodup
  have parts := tidy.parts
  have empty : s.held = [] := by simp [Spooler.held, polls, PrinterThread.held]
  rw [empty, List.append_nil, List.map_cons] at parts
  have number := range_at parts
  have freed : Spooler.freed { s with list := q', printer := .working jp, log := s.log ++ [.picked (s.number jp)] } =
      s.freed := by simp [Spooler.freed]
  refine ⟨list, ?_, ?_, ?_, ?_, tidy.apart, ?_, ?_, ?_, by simp⟩
  · rw [freed, ← parts]
    simp [Spooler.held, PrinterThread.held]
  · intro a member
    rw [moves.1 a]
    exact tidy.values a (by simp [member])
  · intro a works
    obtain rfl : jp = a := by simpa using works
    obtain ⟨node, here⟩ := tidy.list.linked.allocated (show jp ∈ jp :: nodes by simp)
    have value := tidy.values jp (by simp)
    have value' := moves.1 jp
    rw [here] at value value'
    obtain ⟨node', here', same⟩ := Option.map_eq_some_iff.mp value'
    exact ⟨fresh, node', here', by rw [same]; exact value.symm⟩
  · intro t a isAdding
    obtain ⟨outside, _, prev, job, here⟩ := tidy.adding t a isAdding
    have other : a ≠ jp := fun same => outside (by simp [same])
    have outside' : a ∉ nodes := fun member => outside (by simp [member])
    exact ⟨outside', by simpa using other.symm, prev, job, by rw [moves.2 a outside' other, here]⟩
  · refine tidy.inOrder.snoc ?_
    have reached := tidy.reached
    have notPicked := tidy.notPicked (by simp [polls])
    cases last : s.log.getLast? with
    | none =>
      rw [last] at reached
      exact number.trans reached.symm
    | some event =>
      rw [last] at reached
      cases event with
      | picked n => exact absurd last (notPicked n)
      | deferred n => exact number.trans reached.symm
      | dropped n => exact number.trans reached.symm
  · rw [freed]
    simp [JobEvent.reached, number]
  · simp

/-- The job in hand goes back to the head of the queue, or is freed. -/
theorem defer (tidy : s.Tidy nodes) {q' : JobList} (works : s.printer = .working jp)
    (replaces : replaceJob jp s.list = some q') :
    Tidy { s with list := q', printer := .polling, log := s.log ++ [.deferred (s.number jp)] }
      (jp :: nodes) := by
  obtain ⟨fresh, node, here, value⟩ := tidy.working jp works
  obtain ⟨q'', replaces', list, moves⟩ := tidy.list.replaceJob fresh here
  obtain rfl : q' = q'' := by simpa [replaces] using replaces'
  have freed : Spooler.freed { s with list := q', printer := .polling, log := s.log ++ [.deferred (s.number jp)] } =
      s.freed := by simp [Spooler.freed]
  refine ⟨list, ?_, ?_, by simp, ?_, tidy.apart, ?_, ?_, by simp, by simp⟩
  · rw [freed, ← tidy.parts]
    simp [Spooler.held, PrinterThread.held, works]
  · intro a member
    rw [moves.1 a]
    by_cases same : a = jp
    · rw [same, here, value]
      rfl
    · exact tidy.values a (by simpa [same] using member)
  · intro t a isAdding
    obtain ⟨outside, notHeld, _⟩ := tidy.adding t a isAdding
    have other : a ≠ jp := fun same => notHeld (same ▸ works)
    exact ⟨by simpa [other] using outside, by simp, tidy.adding_moved moves isAdding other⟩
  · refine tidy.inOrder.snoc ?_
    rw [tidy.picked works]
    rfl
  · rw [freed]
    simp [JobEvent.reached, tidy.held_number works]

theorem drop (tidy : s.Tidy nodes) (works : s.printer = .working jp) :
    Tidy { s with
      list := { s.list with heap := Function.update s.list.heap jp none }
      printer := .polling
      log := s.log ++ [.dropped (s.number jp)] } nodes := by
  obtain ⟨fresh, node, here, value⟩ := tidy.working jp works
  refine ⟨⟨tidy.list.head, tidy.list.tail, tidy.list.update fresh none⟩, ?_,
    ?_, by simp, ?_, tidy.apart, ?_, ?_, by simp,
    by simp⟩
  · rw [← tidy.parts]
    simp [Spooler.freed, Spooler.held, PrinterThread.held, works]
  · intro a member
    have other : a ≠ jp := fun same => fresh (same ▸ member)
    simpa [other] using tidy.values a member
  · intro t a isAdding
    obtain ⟨outside, notHeld, prev, job, spot⟩ := tidy.adding t a isAdding
    have other : a ≠ jp := fun same => notHeld (same ▸ works)
    exact ⟨outside, by simp, prev, job, by simpa [other] using spot⟩
  · refine tidy.inOrder.snoc ?_
    rw [tidy.picked works]
    rfl
  · simp [JobEvent.reached, Spooler.freed, tidy.held_number works]

theorem step (tidy : s.Tidy nodes) {action : JobAction} (steps : s.step action = some s') :
    ∃ nodes', s'.Tidy nodes' := by
  cases action with
  | malloc tid jp job =>
    cases thread : s.adders tid <;> cases spot :
      s.list.heap jp <;> simp only [Spooler.step, thread, spot] at steps <;>
      try contradiction
    cases steps
    exact ⟨nodes, tidy.malloc thread spot⟩
  | add tid =>
    cases thread : s.adders tid <;> simp only [Spooler.step, thread] at steps <;> try contradiction
    rename_i jp
    cases here : s.list.heap jp with
    | none => simp [here] at steps
    | some node =>
      simp only [here, Option.map_eq_some_iff] at steps
      obtain ⟨q', adds, rfl⟩ := steps
      exact ⟨nodes ++ [jp], tidy.add thread here adds⟩
  | signal tid =>
    cases thread : s.adders tid <;> simp only [Spooler.step, thread] at steps <;> try contradiction
    cases steps
    refine ⟨nodes, tidy.wakes ?_ ?_ ?_ ?_⟩
    · intro t a isAdding
      by_cases same : t = tid
      · simp [same] at isAdding
      · simpa [same] using isAdding
    · intro jp idle
      split <;> simp [idle]
    · intro jp works
      simp [works]
    · intro waits
      -- whoever was waiting is awake now
      split at waits <;> simp_all
  | wake =>
    simp only [Spooler.step] at steps
    split at steps
    · cases steps
      rename_i waits
      exact ⟨nodes, tidy.wakes (fun _ _ isAdding => isAdding) (by simp) (by simp [waits]) (by simp)⟩
    · contradiction
  | poll =>
    cases printer : s.printer <;> simp only [Spooler.step, printer] at steps <;> try contradiction
    cases nodes with
    | nil =>
      have head : s.list.jobhead = none := tidy.list.head
      simp only [head, Option.some.injEq] at steps
      subst steps
      exact ⟨[], tidy.wakes (fun _ _ isAdding => isAdding) (by simp) (by simp [printer]) (by simp)⟩
    | cons jp rest =>
      have head : s.list.jobhead = some jp := tidy.list.head
      simp only [head, Option.map_eq_some_iff] at steps
      obtain ⟨q', removes, rfl⟩ := steps
      exact ⟨rest, tidy.poll printer removes⟩
  | defer =>
    cases printer : s.printer <;> simp only [Spooler.step, printer] at steps <;> try contradiction
    simp only [Option.map_eq_some_iff] at steps
    obtain ⟨q', replaces, rfl⟩ := steps
    exact ⟨_, tidy.defer printer replaces⟩
  | drop =>
    cases printer : s.printer <;> simp only [Spooler.step, printer] at steps <;> try contradiction
    cases steps
    exact ⟨nodes, tidy.drop printer⟩

theorem sound (tidy : s.Tidy nodes) : s.Sound where
  jobs := ⟨nodes, tidy.list.head, tidy.list.tail, tidy.list.linked, tidy.parts, tidy.values⟩
  inOrder := tidy.inOrder
  awake := by
    intro waits more
    refine tidy.awake waits fun empty => more ?_
    simp [tidy.list.head, empty]
  safe := by
    refine ⟨?_, ?_, ?_⟩
    · intro tid jp isAdding
      obtain ⟨fresh, _, prev, job, here⟩ := tidy.adding tid jp isAdding
      obtain ⟨q', adds, _⟩ := tidy.list.addJob fresh here
      simp [Spooler.step, isAdding, here, adds]
    · intro polls
      cases nodes with
      | nil =>
        have head : s.list.jobhead = none := tidy.list.head
        simp [Spooler.step, polls, head]
      | cons jp rest =>
        have head : s.list.jobhead = some jp := tidy.list.head
        obtain ⟨q', removes, _⟩ := tidy.list.removeJob
        simp [Spooler.step, polls, head, removes]
    · intro jp works
      obtain ⟨fresh, node, here, _⟩ := tidy.working jp works
      obtain ⟨q', replaces, _⟩ := tidy.list.replaceJob fresh here
      simp [Spooler.step, works, replaces]

end Spooler.Tidy

/-- In every state any interleaving reaches, the queue is sound. -/
theorem job_queue_sound {actions : List JobAction} {final : Spooler}
    (runs : execute Spooler.step .start actions = some final) : final.Sound := by
  have tidy : ∃ nodes, final.Tidy nodes := by
    refine (Visits.finish runs).invariant (fun s => ∃ nodes, s.Tidy nodes) (fun _ _ => True)
      ⟨[], Spooler.start_tidy⟩ ?_ (fun _ _ _ => trivial)
    intro s action s' tidy _ steps
    obtain ⟨nodes, tidy⟩ := tidy
    exact tidy.step steps
  obtain ⟨nodes, tidy⟩ := tidy
  exact tidy.sound

/-- Two clients, the first of whose jobs is deferred once. -/
def twoJobs : List JobAction :=
  [.poll, .malloc 1 0 ⟨1, ⟨0, 0, [], []⟩⟩, .malloc 2 1 ⟨2, ⟨0, 0, [], []⟩⟩, .add 1, .add 2,
    .signal 2, .poll, .defer,
    .signal 1, .poll, .drop, .poll]

theorem job_queue_sound_deferred : ∃ final, execute Spooler.step .start twoJobs = some final ∧
    final.log = [.picked 0, .deferred 0, .picked 0, .dropped 0, .picked 1] ∧ final.Sound := by
  have logs : (execute Spooler.step .start twoJobs).map Spooler.log =
      some [.picked 0, .deferred 0, .picked 0, .dropped 0, .picked 1] := by rfl
  obtain ⟨final, runs, log⟩ := Option.map_eq_some_iff.mp logs
  exact ⟨final, runs, log, job_queue_sound runs⟩

end Apue.Printer
