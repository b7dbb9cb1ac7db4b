import Apue.Base.DoublyLinked
import Apue.Base.Machine

/-! # The list of worker threads of the print daemon

`printd` keeps one `struct worker_thread` for every client thread in a doubly linked list under
`workerlock`, so that the signal thread can cancel all of them.  The critical sections of
`add_worker` and `client_cleanup` are one action each; the `malloc` before the first and the `close`
and `free` after the second are actions of their own.

`add_worker` sets `workers` only when the list was empty, so a worker added to a list that is not
empty is never reached from it.  The list is intact in exactly those runs in which nobody is added
while somebody is registered.
-/

namespace Apue.Printer

open Apue.Base

/-- `struct worker_thread`, less its links. -/
structure WorkerThread where
  tid : Nat
  sockfd : Int
  deriving DecidableEq, Repr

/-! ## The code -/

/-- The critical section of `add_worker`; `none` is a write through a pointer to freed memory. -/
def addWorker (wtp : Nat) (heap : Heap WorkerThread) (workers : Option Nat) :
    Option (Heap WorkerThread × Option Nat) :=
  match heap.adjust (some wtp) fun node => { node with prev := none, next := workers } with
  | none => none
  | some heap =>
    match workers with
    | none => some (heap, some wtp)
    | some first =>
      (heap.adjust (some first) fun node => { node with prev := some wtp }).map (·, some first)

/-- The critical section of `client_cleanup`: the heap, `workers` and `wtp` after it. -/
def clientCleanup (turns tid : Nat) (heap : Heap WorkerThread) (workers : Option Nat) :
    Option (Heap WorkerThread × Option Nat × Option Nat) :=
  match heap.search (fun worker => worker.tid = tid) turns workers with
  | none => none
  | some none => some (heap, workers, none)
  | some (some wtp) =>
    match heap wtp with
    | none => none
    | some node =>
      match heap.adjust node.next fun next => { next with prev := node.prev } with
      | none => none
      | some heap =>
        match heap wtp with
        | none => none
        | some node =>
          match node.prev with
          | some prev =>
            (heap.adjust (some prev) fun before => { before with next := node.next }).map
              (·, workers, some wtp)
          | none => some (heap, node.next, some wtp)

/-- The threads `kill_workers` cancels. -/
def killWorkers (turns : Nat) (heap : Heap WorkerThread) (workers : Option Nat) :
    Option (List Nat) :=
  (heap.walk turns workers).map fun passed => passed.map WorkerThread.tid

/-! ## The daemon -/

/-- Where a client thread is between its creation and its end. -/
inductive Worker where
  | absent
  | started (sockfd : Int)
  /-- `add_worker` has its node and waits for `workerlock`. -/
  | adding (sockfd : Int) (wtp : Nat)
  | registered (sockfd : Int)
  /-- `add_worker` could not allocate and calls `pthread_exit`, which runs the clean-up routine. -/
  | exiting (sockfd : Int)
  /-- `client_cleanup` has released `workerlock`; `wtp` is what its loop ended with. -/
  | closing (sockfd : Int) (wasRegistered : Bool) (wtp : Option Nat)
  | ended (sockfd : Int) (wasRegistered : Bool)
  deriving DecidableEq

structure Daemon where
  heap : Heap WorkerThread
  workers : Option Nat
  threads : Nat → Worker
  /-- Which thread has closed which socket. -/
  closed : List (Nat × Int)

def Daemon.start : Daemon := ⟨fun _ => none, none, fun _ => .absent, []⟩

inductive Action where
  | create (tid : Nat) (sockfd : Int)
  | malloc (tid : Nat) (wtp : Option Nat)
  | addWorker (tid : Nat)
  | cleanup (tid turns : Nat)
  | close (tid : Nat)
  deriving DecidableEq

def Daemon.setThread (d : Daemon) (tid : Nat) (worker : Worker) : Daemon :=
  { d with threads := Function.update d.threads tid worker }

/-- The clean-up routine of a thread, up to the release of `workerlock`. -/
def Daemon.cleanUp (d : Daemon) (tid turns : Nat) (sockfd : Int) (wasRegistered : Bool) :
    Option Daemon :=
  (clientCleanup turns tid d.heap d.workers).map fun (heap, workers, wtp) =>
    { d with heap := heap, workers := workers }.setThread tid (.closing sockfd wasRegistered wtp)

def Daemon.step (d : Daemon) : Action → Option Daemon
  | .create tid sockfd =>
    match d.threads tid with
    | .absent => some (d.setThread tid (.started sockfd))
    | _ => none
  | .malloc tid wtp =>
    match d.threads tid, wtp with
    | .started sockfd, none => some (d.setThread tid (.exiting sockfd))
    | .started sockfd, some wtp =>
      match d.heap wtp with
      | some _ => none
      | none =>
        some ({ d with heap := Function.update d.heap wtp (some ⟨none, none, tid, sockfd⟩) }.setThread tid
          (.adding sockfd wtp))
    | _, _ => none
  | .addWorker tid =>
    match d.threads tid with
    | .adding sockfd wtp => (Printer.addWorker wtp d.heap d.workers).map fun (heap, workers) =>
        { d with heap := heap, workers := workers }.setThread tid (.registered sockfd)
    | _ => none
  | .cleanup tid turns =>
    match d.threads tid with
    | .registered sockfd => d.cleanUp tid turns sockfd true
    | .exiting sockfd => d.cleanUp tid turns sockfd false
    | _ => none
  | .close tid =>
    match d.threads tid with
    | .closing sockfd wasRegistered none => some (d.setThread tid (.ended sockfd wasRegistered))
    | .closing sockfd wasRegistered (some wtp) =>
      match d.heap wtp with
      | none => none
      | some node =>
        some ({ d with heap := Function.update d.heap wtp none, closed := d.closed ++
          [(tid, node.val.sockfd)] }.setThread
          tid (.ended sockfd wasRegistered))
    | _ => none

/-! ## What the list is for -/

/-- The thread has registered and not yet cleaned up. -/
def Daemon.Registered (d : Daemon) (tid : Nat) : Prop :=
  ∃ sockfd, d.threads tid = .registered sockfd

/-- The worker that stands at an address. -/
def Daemon.worker (d : Daemon) (a : Nat) : Option WorkerThread := (d.heap a).map Node.val

structure Daemon.Intact (d : Daemon) : Prop where
  /-- The list from `workers` has every registered thread once, no other, and no freed node. -/
  list : ∃ nodes, d.workers = nodes.head? ∧ DoublyLinked d.heap nodes ∧
    (nodes.filterMap fun a => (d.worker a).map WorkerThread.tid).Nodup ∧
    ∀ tid, tid ∈ (nodes.filterMap fun a => (d.worker a).map WorkerThread.tid) ↔ d.Registered tid
  /-- `kill_workers` ends and cancels the registered threads and no others. -/
  kills : ∃ bound, ∀ turns > bound, ∃ cancelled, killWorkers turns d.heap d.workers =
    some cancelled ∧
    cancelled.Nodup ∧ ∀ tid, tid ∈ cancelled ↔ d.Registered tid
  /-- `client_cleanup` of a registered thread ends. -/
  cleans : ∀ tid, d.Registered tid → ∃ bound, ∀ turns > bound, (d.step (.cleanup tid turns)).isSome
  /-- What has been closed is, for every registered thread that has ended, its own socket. -/
  closes : ∀ tid sockfd, (tid, sockfd) ∈ d.closed ↔ d.threads tid = .ended sockfd true
  closesOnce : d.closed.Nodup

/-! ## The critical sections keep the list -/

variable {heap : Heap WorkerThread} {nodes : List Nat}

/-- A worker is added to an empty list. -/
theorem addWorker_first {wtp : Nat} {node : Node WorkerThread} (here : heap wtp = some node) :
    addWorker wtp heap none = some (Function.update heap wtp (some ⟨none, none, node.val⟩),
      some wtp) := by
  simp [addWorker, Heap.adjust, here]

/-- What `client_cleanup` does to an intact list: the node its loop finds is taken out, wherever it
stands. -/
theorem clientCleanup_found {tid turns a : Nat} (list : DoublyLinked heap nodes)
    (ends : heap.search (fun worker => worker.tid = tid) turns nodes.head? = some (some a))
    (member : a ∈ nodes) :
    ∃ before after heap', nodes = before ++ a :: after ∧
      clientCleanup turns tid heap nodes.head? = some (heap', (before ++ after).head?, some a) ∧
      DoublyLinked heap' (before ++ after) ∧ heap.SameValues heap' := by
  obtain ⟨before, after, rfl⟩ := List.append_of_mem member
  obtain ⟨val, here⟩ := list.linked before a after rfl
  obtain ⟨middle, heap', first, kept, second, shorter, values⟩ := list.unlink
  have node : middle a = some ⟨after.head?, before.getLast?, val⟩ := kept.trans here
  refine ⟨before, after, heap', rfl, ?_, shorter, values⟩
  simp only [clientCleanup, ends, here, first, node]
  cases behind : before.getLast? with
  | none =>
    -- the first of the list: `workers` moves on, and there is no node behind to write to
    have alone : before = [] := by simpa using behind
    simp only [behind, Heap.adjust, Option.some.injEq] at second
    simp [alone, second]
  | some last =>
    have more : before ≠ [] := by
      intro empty
      simp [empty] at behind
    rw [behind] at second
    simp [second, List.head?_append, List.head?_eq_some_head more]

/-! ## Runs -/

/-- The invariant: the list, and what the nodes outside it belong to. -/
structure Daemon.Listed (d : Daemon) (nodes : List Nat) : Prop where
  list : DoublyLinked d.heap nodes
  head : d.workers = nodes.head?
  active : ∀ a ∈ nodes, ∀ w, d.worker a = some w → d.threads w.tid = .registered w.sockfd
  listed : ∀ tid sockfd, d.threads tid = .registered sockfd →
    ∃ a ∈ nodes, d.worker a = some ⟨tid, sockfd⟩
  distinct : ∀ a ∈ nodes, ∀ b ∈ nodes, d.worker a = d.worker b → a = b
  adding : ∀ tid sockfd wtp, d.threads tid = .adding sockfd wtp → d.worker wtp = some ⟨tid, sockfd⟩
  closing : ∀ tid sockfd wasRegistered wtp, d.threads tid = .closing sockfd wasRegistered wtp →
    wtp.isSome = wasRegistered ∧ ∀ a ∈ wtp, d.worker a = some ⟨tid, sockfd⟩
  closed : ∀ tid sockfd, (tid, sockfd) ∈ d.closed ↔ d.threads tid = .ended sockfd true
  once : d.closed.Nodup

/-- The action does not add a worker while another one is registered. -/
def Daemon.Alone (d : Daemon) : Action → Prop
  | .addWorker _ => ∀ tid, ¬ d.Registered tid
  | _ => True

theorem Daemon.start_listed : Daemon.start.Listed [] where
  list := .empty _
  head := rfl
  active := by simp
  listed := by simp [start]
  distinct := by simp
  adding := by simp [start]
  closing := by simp [start]
  closed := by simp [start]
  once := by simp [start]

namespace Daemon.Listed

variable {d d' : Daemon}

/-- The node a search for a thread ends at is the node that thread has registered. -/
theorem found (listed : d.Listed nodes) {tid turns : Nat} {r : Option Nat}
    (ends : d.heap.search (fun worker => worker.tid = tid) turns d.workers = some r) :
    (∀ a ∈ r, a ∈ nodes ∧ ∃ sockfd, d.threads tid = .registered sockfd ∧
      d.worker a = some ⟨tid, sockfd⟩) ∧
      (r = none → ¬ d.Registered tid) := by
  have result := listed.list.search (fun worker => worker.tid = tid) listed.head ends
  constructor
  · intro a found
    rw [result] at found
    have member := List.mem_of_find?_eq_some found
    obtain ⟨node, here⟩ := listed.list.allocated member
    have same : node.val.tid = tid := by simpa [here] using List.find?_some found
    have worker : d.worker a = some node.val := by simp [Daemon.worker, here]
    have registered := listed.active a member node.val worker
    rw [same] at registered
    exact ⟨member, node.val.sockfd, registered, by rw [worker, ← same]⟩
  · intro nothing registered
    obtain ⟨sockfd, registered⟩ := registered
    obtain ⟨a, member, worker⟩ := listed.listed tid sockfd registered
    rw [nothing, eq_comm, List.find?_eq_none] at result
    obtain ⟨node, here, val⟩ := Option.map_eq_some_iff.mp worker
    have := result a member
    simp [here, val] at this

/-- A thread that goes on without touching the list. -/
theorem elsewhere (listed : d.Listed nodes) {tid : Nat} {worker : Worker}
    (threads : d'.threads = Function.update d.threads tid worker)
    (workers : d'.workers = d.workers) (heap : ∀ a ∈ nodes, d'.heap a = d.heap a)
    (kept : ∀ t a sockfd, d.worker a = some ⟨t, sockfd⟩ → t ≠ tid → d'.worker a = d.worker a)
    (before : ∀ sockfd, d.threads tid ≠ .registered sockfd)
    (after : ∀ sockfd, worker ≠ .registered sockfd)
    (adding : ∀ sockfd wtp, worker = .adding sockfd wtp → d'.worker wtp = some ⟨tid, sockfd⟩)
    (closing : ∀ sockfd wasRegistered wtp, worker = .closing sockfd wasRegistered wtp →
      wtp.isSome = wasRegistered ∧ ∀ a ∈ wtp, d'.worker a = some ⟨tid, sockfd⟩)
    (closed : ∀ t sockfd, (t, sockfd) ∈ d'.closed ↔ (t ≠ tid ∧ (t, sockfd) ∈ d.closed) ∨
    (t = tid ∧ worker = .ended sockfd true))
    (once : d'.closed.Nodup) : d'.Listed nodes := by
  have worker_eq (a : Nat) (member : a ∈ nodes) : d'.worker a = d.worker a := by
    simp [Daemon.worker, heap a member]
  refine ⟨listed.list.congr heap, workers.trans listed.head, ?_, ?_, ?_, ?_, ?_, ?_, once⟩
  · intro a member w here
    rw [worker_eq a member] at here
    have registered := listed.active a member w here
    have other : w.tid ≠ tid := fun same => before w.sockfd (same ▸ registered)
    simpa [threads, other] using registered
  · intro t sockfd registered
    by_cases same : t = tid
    · subst same
      exact absurd (by simpa [threads] using registered) (after sockfd)
    · obtain ⟨a, member, here⟩ := listed.listed t sockfd (by simpa [threads, same] using registered)
      exact ⟨a, member, by rw [worker_eq a member, here]⟩
  · intro a inA b inB same
    rw [worker_eq a inA, worker_eq b inB] at same
    exact listed.distinct a inA b inB same
  · intro t sockfd wtp isAdding
    by_cases same : t = tid
    · subst same
      exact adding sockfd wtp (by simpa [threads] using isAdding)
    · have here := listed.adding t sockfd wtp (by simpa [threads, same] using isAdding)
      rw [kept t wtp sockfd here same, here]
  · intro t sockfd wasRegistered wtp isClosing
    by_cases same : t = tid
    · subst same
      exact closing sockfd wasRegistered wtp (by simpa [threads] using isClosing)
    · obtain ⟨some, here⟩ :=
        listed.closing t sockfd wasRegistered wtp (by simpa [threads, same] using isClosing)
      exact ⟨some, fun a member => by rw [kept t a sockfd (here a member) same, here a member]⟩
  · intro t sockfd
    rw [closed, listed.closed, threads]
    by_cases same : t = tid
    · simp [same]
    · simp [same]

/-- A thread that goes on from one state that has no part in the list to another. -/
theorem goesOn (listed : d.Listed nodes) {tid : Nat} {worker : Worker}
    (before : ∀ sockfd, d.threads tid ≠ .registered sockfd)
    (running : ∀ sockfd, d.threads tid ≠ .ended sockfd true)
    (after : ∀ sockfd, worker ≠ .registered sockfd)
    (adding : ∀ sockfd wtp, worker ≠ .adding sockfd wtp)
    (closing : ∀ sockfd wasRegistered wtp, worker = .closing sockfd wasRegistered wtp →
    wasRegistered = false ∧ wtp = none)
    (ended : ∀ sockfd, worker ≠ .ended sockfd true) : (d.setThread tid worker).Listed nodes := by
  refine listed.elsewhere rfl rfl (fun _ _ => rfl) (fun _ _ _ _ _ => rfl) before after ?_ ?_ ?_
    listed.once
  · intro sockfd wtp isAdding
    exact absurd isAdding (adding sockfd wtp)
  · intro sockfd wasRegistered wtp isClosing
    obtain ⟨rfl, rfl⟩ := closing sockfd wasRegistered wtp isClosing
    simp
  · intro t sockfd
    by_cases same : t = tid
    · simp [Daemon.setThread, same, listed.closed, running, ended]
    · simp [Daemon.setThread, same]

/-- A worker that nobody else has been registered beside. -/
theorem addWorker (listed : d.Listed nodes) {tid wtp : Nat} {sockfd : Int}
    {heap : Heap WorkerThread} {workers : Option Nat}
    (thread : d.threads tid = .adding sockfd wtp) (nobody : ∀ t, ¬ d.Registered t)
    (adds : Printer.addWorker wtp d.heap d.workers = some (heap, workers)) :
    ({ d with heap := heap, workers := workers }.setThread tid (.registered sockfd)).Listed
      [wtp] := by
  obtain rfl : nodes = [] := by
    refine List.eq_nil_iff_forall_not_mem.mpr fun a member => ?_
    obtain ⟨node, here⟩ := listed.list.allocated member
    exact nobody node.val.tid ⟨_, listed.active a member node.val (by simp [Daemon.worker, here])⟩
  obtain ⟨node, here, val⟩ := Option.map_eq_some_iff.mp (listed.adding tid sockfd wtp thread)
  rw [listed.head, List.head?_nil, addWorker_first here] at adds
  simp only [Option.some.injEq, Prod.mk.injEq] at adds
  obtain ⟨rfl, rfl⟩ := adds
  -- the node keeps its value, so nothing that other threads own has changed
  have values : d.heap.SameValues (Function.update d.heap wtp (some ⟨none, none, node.val⟩)) := by
    intro a
    by_cases same : a = wtp
    · simp [same, here]
    · simp [same]
  have worker_eq (a : Nat) :
      (Function.update d.heap wtp (some ⟨none, none, node.val⟩) a).map Node.val = d.worker a :=
    values a
  have single : DoublyLinked (Function.update d.heap wtp (some ⟨none, none, node.val⟩)) [wtp] := by
    have spot : Function.update d.heap wtp (some ⟨none, none, node.val⟩) wtp =
        some ⟨([] : List Nat).head?, none, node.val⟩ := by simp
    obtain ⟨heap', writes, pushed, _⟩ := (DoublyLinked.empty _).push (by simp) spot
    simp only [List.head?_nil, Heap.adjust, Option.some.injEq] at writes
    rwa [writes]
  refine ⟨single, rfl, ?_, ?_, ?_, ?_, ?_, ?_, listed.once⟩
  · intro a member w worker
    obtain rfl : a = wtp := by simpa using member
    have same : w = ⟨tid, sockfd⟩ := by
      simpa [Daemon.worker, Daemon.setThread, val] using worker.symm
    simp [Daemon.setThread, same]
  · intro t fd registered
    by_cases same : t = tid
    · subst same
      have fds : sockfd = fd := by simpa [Daemon.setThread] using registered
      exact ⟨wtp, by simp, by simp [Daemon.worker, Daemon.setThread, val, fds]⟩
    · exact absurd ⟨fd, by simpa [Daemon.setThread, same] using registered⟩ (nobody t)
  · intro a inA b inB _
    simp_all
  · intro t fd a isAdding
    have other : t ≠ tid := by
      intro same
      simp [Daemon.setThread, same] at isAdding
    have worker := listed.adding t fd a (by simpa [Daemon.setThread, other] using isAdding)
    simpa [Daemon.worker, Daemon.setThread, worker_eq] using worker
  · intro t fd wasRegistered wtp' isClosing
    have other : t ≠ tid := by
      intro same
      simp [Daemon.setThread, same] at isClosing
    obtain ⟨some, workers⟩ :=
      listed.closing t fd wasRegistered wtp' (by simpa [Daemon.setThread, other] using isClosing)
    exact ⟨some, fun a member => by simpa [Daemon.worker, Daemon.setThread, worker_eq] using workers a member⟩
  · intro t fd
    by_cases same : t = tid
    · simp [Daemon.setThread, same, listed.closed, thread]
    · simp [Daemon.setThread, same, listed.closed]

/-- A registered thread cleans up: its node leaves the list, wherever it stands. -/
theorem cleanup (listed : d.Listed nodes) {tid turns : Nat} {sockfd : Int}
    (thread : d.threads tid = .registered sockfd)
    (cleans : d.cleanUp tid turns sockfd true = some d') : ∃ nodes', d'.Listed nodes' := by
  simp only [Daemon.cleanUp, Option.map_eq_some_iff] at cleans
  obtain ⟨⟨heap, workers, wtp⟩, effect, rfl⟩ := cleans
  cases ends : d.heap.search (fun worker => worker.tid = tid) turns d.workers with
  | none => simp [clientCleanup, ends] at effect
  | some r =>
    obtain ⟨finds, misses⟩ := listed.found ends
    cases r with
    | none => exact absurd ⟨sockfd, thread⟩ (misses rfl)
    | some a =>
      obtain ⟨member, fd, registered, worker⟩ := finds a rfl
      obtain rfl : fd = sockfd := by simpa [thread] using registered.symm
      rw [listed.head] at ends effect
      obtain ⟨before, after, heap', rfl, result, shorter, values⟩ :=
        clientCleanup_found listed.list ends member
      rw [result] at effect
      simp only [Option.some.injEq, Prod.mk.injEq] at effect
      obtain ⟨rfl, rfl, rfl⟩ := effect
      have worker_eq (b : Nat) : (heap' b).map Node.val = d.worker b := values b
      have stays (b : Nat) (rest : b ∈ before ++ after) : b ∈ before ++ a :: after := by
        simp only [List.mem_append, List.mem_cons] at rest ⊢
        tauto
      have gone : a ∉ before ++ after := by
        have distinct := listed.list.nodup
        rw [List.nodup_middle] at distinct
        exact (List.nodup_cons.mp distinct).1
      refine ⟨before ++ after, shorter, rfl, ?_, ?_, ?_, ?_, ?_, ?_, listed.once⟩
      · intro b rest w here
        have there : d.worker b = some w := (worker_eq b).symm.trans here
        have active := listed.active b (stays b rest) w there
        have other : w.tid ≠ tid := by
          intro same
          obtain rfl : w = ⟨tid, fd⟩ := by
            cases w
            simp_all
          exact gone (listed.distinct b (stays b rest) a (by simp) (there.trans worker.symm) ▸ rest)
        simpa [Daemon.setThread, other] using active
      · intro t fd' isRegistered
        have other : t ≠ tid := by
          intro same
          simp [Daemon.setThread, same] at isRegistered
        obtain ⟨b, inList, here⟩ :=
          listed.listed t fd' (by simpa [Daemon.setThread, other] using isRegistered)
        have notA : b ≠ a := by
          intro same
          rw [same, worker] at here
          simp at here
          exact other here.1.symm
        refine ⟨b, ?_, by simpa [Daemon.worker, Daemon.setThread, worker_eq] using here⟩
        simpa [notA] using inList
      · intro b inB c inC same
        apply listed.distinct b (stays b inB) c (stays c inC)
        simpa [Daemon.worker, Daemon.setThread, worker_eq] using same
      · intro t fd' b isAdding
        have other : t ≠ tid := by
          intro same
          simp [Daemon.setThread, same] at isAdding
        have here := listed.adding t fd' b (by simpa [Daemon.setThread, other] using isAdding)
        simpa [Daemon.worker, Daemon.setThread, worker_eq] using here
      · intro t fd' wasRegistered wtp isClosing
        by_cases same : t = tid
        · subst same
          obtain ⟨rfl, rfl, rfl⟩ : fd = fd' ∧ true = wasRegistered ∧ some a = wtp := by
            simpa [Daemon.setThread] using isClosing
          exact ⟨rfl, fun b here => by simpa [Daemon.worker, Daemon.setThread, worker_eq, ← Option.mem_some.mp here] using worker⟩
        · obtain ⟨some, workers⟩ := listed.closing t fd' wasRegistered wtp
            (by simpa [Daemon.setThread, same] using isClosing)
          exact ⟨some, fun b here => by simpa [Daemon.worker, Daemon.setThread, worker_eq] using workers b here⟩
      · intro t fd'
        by_cases same : t = tid
        · simp [Daemon.setThread, same, listed.closed, thread]
        · simp [Daemon.setThread, same, listed.closed]

theorem step (listed : d.Listed nodes) {action : Action} (alone : d.Alone action)
    (steps : d.step action = some d') :
    ∃ nodes', d'.Listed nodes' := by
  cases action with
  | create tid sockfd =>
    cases thread : d.threads tid <;> simp only [Daemon.step, thread] at steps <;> try contradiction
    cases steps
    exact ⟨nodes, listed.goesOn (by simp [thread]) (by simp [thread]) (by simp) (by simp)
      (by simp) (by simp)⟩
  | malloc tid wtp =>
    cases thread : d.threads tid <;> cases wtp <;> simp only [Daemon.step, thread] at steps <;>
      try contradiction
    · cases steps
      exact ⟨nodes, listed.goesOn (by simp [thread]) (by simp [thread]) (by simp) (by simp)
        (by simp) (by simp)⟩
    · rename_i sockfd wtp
      cases there : d.heap wtp with
      | some node => simp [there] at steps
      | none =>
        simp only [there, Option.some.injEq] at steps
        subst steps
        -- a fresh address is neither on the list nor owned by another thread
        refine ⟨nodes, listed.elsewhere rfl rfl ?_ ?_ (by simp [thread]) (by simp) ?_ (by simp)
          (fun t fd => by by_cases same : t = tid <;> simp [Daemon.setThread, same, listed.closed, thread]) listed.once⟩
        · intro a member
          have other : a ≠ wtp := by
            intro same
            obtain ⟨node, here⟩ := listed.list.allocated member
            simp [same, there] at here
          simp [Daemon.setThread, other]
        · intro t a fd here _
          have other : a ≠ wtp := by
            intro same
            simp [same, Daemon.worker, there] at here
          simp [Daemon.worker, Daemon.setThread, other]
        · intro fd a isAdding
          obtain ⟨rfl, rfl⟩ : sockfd = fd ∧ wtp = a := by simpa using isAdding
          simp [Daemon.worker, Daemon.setThread]
  | addWorker tid =>
    cases thread : d.threads tid <;> simp only [Daemon.step, thread] at steps <;> try contradiction
    simp only [Option.map_eq_some_iff] at steps
    obtain ⟨⟨heap, workers⟩, adds, rfl⟩ := steps
    exact ⟨_, listed.addWorker thread alone adds⟩
  | cleanup tid turns =>
    cases thread : d.threads tid <;> simp only [Daemon.step, thread] at steps <;> try contradiction
    · exact listed.cleanup thread steps
    · rename_i sockfd
      simp only [Daemon.cleanUp, Option.map_eq_some_iff] at steps
      obtain ⟨⟨heap, workers, wtp⟩, effect, rfl⟩ := steps
      cases ends : d.heap.search (fun worker => worker.tid = tid) turns d.workers with
      | none => simp [clientCleanup, ends] at effect
      | some r =>
        cases r with
        | some a =>
          -- the list has no node of a thread that never registered
          obtain ⟨_, fd, registered, _⟩ := (listed.found ends).1 a rfl
          simp [thread] at registered
        | none =>
          simp only [clientCleanup, ends, Option.some.injEq, Prod.mk.injEq] at effect
          obtain ⟨rfl, rfl, rfl⟩ := effect
          exact ⟨nodes, listed.goesOn (by simp [thread]) (by simp [thread]) (by simp) (by simp)
            (by simp) (by simp)⟩
  | close tid =>
    cases thread : d.threads tid <;> simp only [Daemon.step, thread] at steps <;> try contradiction
    rename_i sockfd wasRegistered wtp
    obtain ⟨there, owner⟩ := listed.closing tid sockfd wasRegistered wtp thread
    cases wtp with
    | none =>
      simp only [Option.isSome_none] at there
      subst there
      cases steps
      exact ⟨nodes, listed.goesOn (by simp [thread]) (by simp [thread]) (by simp) (by simp)
        (by simp) (by simp)⟩
    | some wtp =>
      simp only [Option.isSome_some] at there
      subst there
      have worker := owner wtp rfl
      obtain ⟨node, here, val⟩ := Option.map_eq_some_iff.mp worker
      simp only [here, Option.some.injEq] at steps
      subst steps
      have unlisted : wtp ∉ nodes := by
        intro member
        have active := listed.active wtp member _ worker
        simp [thread] at active
      refine ⟨nodes, listed.elsewhere rfl rfl ?_ ?_ (by simp [thread]) (by simp) (by simp)
        (by simp) ?_ ?_⟩
      · intro a member
        have other : a ≠ wtp := fun same => unlisted (same ▸ member)
        simp [Daemon.setThread, other]
      · intro t a fd owned differ
        have other : a ≠ wtp := by
          intro same
          rw [same, worker] at owned
          simp at owned
          exact differ owned.1.symm
        simp [Daemon.worker, Daemon.setThread, other]
      · intro t fd
        by_cases same : t = tid
        · simp [Daemon.setThread, same, listed.closed, thread, val, eq_comm]
        · simp [Daemon.setThread, same]
      · have fresh : (tid, sockfd) ∉ d.closed := by simp [listed.closed, thread]
        simp only [Daemon.setThread, val, List.nodup_append, List.nodup_singleton,
          List.mem_singleton]
        exact ⟨listed.once, trivial, fun x inside y last same => fresh (by rwa [← last, ← same])⟩

/-- Two nodes of the list that belong to one thread are one node. -/
theorem tids_nodup (listed : d.Listed nodes) :
    (nodes.filterMap fun a => (d.worker a).map WorkerThread.tid).Nodup := by
  rw [List.Nodup, List.pairwise_filterMap]
  refine listed.list.nodup.imp_of_mem fun {a b} inA inB differ tid atA tid' atB same => differ ?_
  obtain ⟨w, worker, rfl⟩ := Option.map_eq_some_iff.mp atA
  obtain ⟨w', worker', rfl⟩ := Option.map_eq_some_iff.mp atB
  have registered := listed.active a inA w worker
  have registered' := listed.active b inB w' worker'
  rw [same, registered'] at registered
  obtain rfl : w = w' := by
    cases w
    cases w'
    simp_all
  exact listed.distinct a inA b inB (worker.trans worker'.symm)

theorem mem_tids (listed : d.Listed nodes) (tid : Nat) :
    tid ∈ (nodes.filterMap fun a => (d.worker a).map WorkerThread.tid) ↔ d.Registered tid := by
  simp only [List.mem_filterMap, Option.map_eq_some_iff]
  constructor
  · intro found
    obtain ⟨a, member, w, worker, rfl⟩ := found
    exact ⟨_, listed.active a member w worker⟩
  · intro registered
    obtain ⟨sockfd, registered⟩ := registered
    obtain ⟨a, member, worker⟩ := listed.listed tid sockfd registered
    exact ⟨a, member, _, worker, rfl⟩

theorem intact (listed : d.Listed nodes) : d.Intact where
  list := ⟨nodes, listed.head, listed.list, listed.tids_nodup, listed.mem_tids⟩
  kills := by
    refine ⟨nodes.length, fun turns enough => ⟨_, ?_, listed.tids_nodup, listed.mem_tids⟩⟩
    rw [killWorkers, listed.head, listed.list.walk_from [] nodes rfl enough]
    simp [List.map_filterMap, Daemon.worker, Function.comp_def]
  cleans := by
    intro tid registered
    refine ⟨nodes.length, fun turns enough => ?_⟩
    have ends := listed.list.search_from [] nodes (fun worker => worker.tid = tid) rfl enough
    obtain ⟨sockfd, thread⟩ := registered
    rw [← listed.head] at ends
    cases result : (nodes.find? fun x => (d.heap x).any fun node =>
      decide (node.val.tid = tid)) with
    | none => exact absurd ⟨sockfd, thread⟩ ((listed.found ends).2 result)
    | some a =>
      rw [result] at ends
      have member := ((listed.found ends).1 a rfl).1
      rw [listed.head] at ends
      obtain ⟨before, after, heap', split, effect, _⟩ := clientCleanup_found listed.list ends member
      simp [Daemon.step, thread, Daemon.cleanUp, listed.head, effect]
  closes := listed.closed
  closesOnce := listed.once

end Daemon.Listed

/-- After `add_worker` to a list that is not empty, the head of the list points back to a node the
list does not reach. -/
theorem addWorker_breaks {d d' : Daemon} {tid t : Nat} (intact : d.Intact)
    (registered : d.Registered t)
    (steps : d.step (.addWorker tid) = some d') : ¬ d'.Intact := by
  intro intact'
  obtain ⟨nodes, head, list, _, mem⟩ := intact.list
  cases nodes with
  | nil => exact absurd registered (by simpa using mem t)
  | cons first rest =>
    simp only [List.head?_cons] at head
    cases thread : d.threads tid <;> simp only [Daemon.step, thread] at steps <;> try contradiction
    rename_i sockfd wtp
    simp only [Option.map_eq_some_iff] at steps
    obtain ⟨⟨heap, workers⟩, adds, rfl⟩ := steps
    simp only [addWorker, head] at adds
    cases linked : d.heap.adjust (some wtp) fun node =>
      { node with prev := none, next := some first } with
    | none => simp [linked] at adds
    | some middle =>
      rw [linked] at adds
      simp only [Heap.adjust, Option.map_map, Option.map_eq_some_iff, Function.comp_apply,
        Prod.mk.injEq] at adds
      obtain ⟨node, _, rfl, rfl⟩ := adds
      obtain ⟨nodes', head', list', _⟩ := intact'.list
      cases nodes' with
      | nil => simp [Daemon.setThread] at head'
      | cons first' rest' =>
        obtain rfl : first = first' := by simpa [Daemon.setThread] using head'
        obtain ⟨val, here⟩ := list'.linked [] first rest' rfl
        simp [Daemon.setThread] at here

/-- The worker list is intact throughout a run exactly when no worker is added beside another
one. -/
theorem worker_list_intact {actions : List Action} {final : Daemon}
    (runs : execute Daemon.step .start actions = some final) :
    (∀ d, Visits Daemon.step .start actions d → d.Intact) ↔
      ∀ d tid, Takes Daemon.step .start actions d (.addWorker tid) → ∀ t, ¬ d.Registered t := by
  constructor
  · intro allIntact d tid takes t registered
    obtain ⟨d', steps, visited⟩ := takes.next runs
    exact addWorker_breaks (allIntact d takes.visits) registered steps (allIntact d' visited)
  · intro alone d visits
    have listed : ∃ nodes, d.Listed nodes := by
      refine visits.invariant (fun d => ∃ nodes, d.Listed nodes) Daemon.Alone
        ⟨[], Daemon.start_listed⟩ ?_ ?_
      · intro d₁ action d₂ listed₁ allowed steps
        obtain ⟨nodes, listed₁⟩ := listed₁
        exact listed₁.step allowed steps
      · intro d₁ action takes
        cases action with
        | addWorker tid => exact alone d₁ tid takes
        | _ => trivial
    obtain ⟨nodes, listed⟩ := listed
    exact listed.intact

/-- The first client has gone when the second comes, whose node is the one that was freed. -/
def oneAfterAnother : List Action :=
  [.create 0 7, .malloc 0 (some 0), .addWorker 0, .cleanup 0 2, .close 0, .create 1 8,
    .malloc 1 (some 0), .addWorker 1]

theorem worker_list_intact_reused :
    ∃ final, execute Daemon.step .start oneAfterAnother = some final ∧
    final.threads 0 = .ended 7 true ∧ final.threads 1 = .registered 8 ∧
      ∀ d, Visits Daemon.step .start oneAfterAnother d → d.Intact := by
  refine ⟨_, rfl, rfl, rfl, (worker_list_intact rfl).mpr ?_⟩
  rintro d tid ⟨before, after, split, runs⟩ t ⟨sockfd, registered⟩
  have thread : (execute Daemon.step .start before).map (fun d => d.threads t) =
      some (.registered sockfd) := by
    rw [runs, ← registered]
    rfl
  have two : before = oneAfterAnother.take 2 ∨ before = oneAfterAnother.take 7 := by
    have added : oneAfterAnother[before.length]?.any (· matches .addWorker _) = true := by
      simp [split]
    have inside : before.length < oneAfterAnother.length := by simp [split]
    have places : ∀ n < oneAfterAnother.length, oneAfterAnother[n]?.any (· matches .addWorker _) =
        true → n = 2 ∨ n = 7 := by
      decide
    have taken : before = oneAfterAnother.take before.length := by simp [split]
    obtain place | place := places _ inside added
    · exact .inl (place ▸ taken)
    · exact .inr (place ▸ taken)
  obtain rfl | rfl := two <;> rcases t with _ | _ | t <;> cases thread

/-- Two clients at once: the second is registered, but `kill_workers` cancels the first only. -/
theorem worker_list_broken : ∃ final,
    execute Daemon.step .start [.create 0 7, .malloc 0 (some 0), .addWorker 0, .create 1 8,
      .malloc 1 (some 1),
      .addWorker 1] = some final ∧
    final.Registered 1 ∧ killWorkers 3 final.heap final.workers = some [0] ∧ ¬ final.Intact := by
  refine ⟨_, rfl, ⟨8, rfl⟩, rfl, ?_⟩
  intro intact
  obtain ⟨nodes, head, list, _⟩ := intact.list
  cases nodes with
  | nil => exact absurd head (by simp [Daemon.setThread])
  | cons first rest =>
    obtain rfl : 0 = first := by simpa [Daemon.setThread] using head
    obtain ⟨val, here⟩ := list.linked [] 0 rest rfl
    simp [Daemon.setThread] at here

end Apue.Printer
