import Apue.Threads.QueueInvariant

/-! # The steps of the job queue

Every step keeps the invariant, and what it does to the queues of the workers is one of four things
(`Effect`): nothing, a job linked at one end of one of them, the first job of its own executed by a
worker, or that job taken out.
-/

namespace Apue.Threads.Queue

open Apue.Base

variable {τ : Type} [DecidableEq τ]
variable {qThread : Fin nthread → τ} {s s' m : State τ} {nodes nodes' before after : List Nat}
    {t u : τ} {pc old : Pc}
  {i j : Fin nthread} {jp a : Nat}

/-- The job has been executed and `job_remove` has not taken it out yet. -/
def Pc.executing : Pc → Bool
  | .removeLock _ _ | .removeEnds _ _ | .removeLinks _ _ _ => true
  | _ => false

/-- The node that is being linked or taken out. -/
def Pc.busy : Pc → Option Nat
  | .finish _ jp _ | .removeLinks _ jp _ => some jp
  | _ => none

/-- The thread an action is a step of. -/
def actor : Action τ → τ
  | .add t _ _ _ | .handleJob t | .run t | .spurious t => t

/-- The caller of `job_remove` has its mutex. -/
theorem Pc.executing_held (busy : pc.executing = true) :
    ∃ i, pc.worker = some i ∧ pc.held.mutex = some i := by
  cases pc <;> simp_all [executing, worker, held]

/-- What a step of the thread does to the queues of the workers. -/
inductive Effect (qThread : Fin nthread → τ) (s : State τ) (nodes : List Nat) (s' : State τ)
    (nodes' : List Nat) (t : τ) :
    Prop where
  | quiet (mine : ∀ u, mine s'.heap u nodes' = mine s.heap u nodes)
      (ghosts : s'.accepted = s.accepted ∧ s'.serial = s.serial ∧ s'.executed = s.executed)
      (executing : ∀ u, (s'.pc u).executing = (s.pc u).executing)
  | linked (front : Bool) (jp : Nat) (job : Job τ) (i : Fin nthread) (target : index qThread job.jId = some i)
      (owes : (s'.pc t).owesSignal = some i) (outside : jp ∉ nodes) (value : (s.heap jp).map
        Node.val = some job)
      (mine : ∀ u, mine s'.heap u nodes' = if job.jId = u then
        if front then jp :: mine s.heap u nodes else mine s.heap u nodes ++
          [jp] else mine s.heap u nodes)
      (ghosts : s'.accepted = s.accepted ++ [(front, job)] ∧
        s'.serial = Function.update s.serial jp s.accepted.length ∧
        s'.executed = s.executed)
      (executing : ∀ u, (s'.pc u).executing = (s.pc u).executing)
      (idle : (s.pc job.jId).executing = false)
  | executed (jp : Nat) (first : (mine s.heap t nodes).head? = some jp)
      (mine : ∀ u, mine s'.heap u nodes' = mine s.heap u nodes)
      (ghosts : s'.accepted = s.accepted ∧ s'.serial = s.serial ∧
        s'.executed = s.executed ++ [(t, s.serial jp)])
      (executing : (s.pc t).executing = false ∧ (s'.pc t).executing = true ∧
        ∀ u, u ≠ t → (s'.pc u).executing = (s.pc u).executing)
  | removed (mine : ∀ u, mine s'.heap u nodes' = if u = t then (mine s.heap u nodes).tail else mine s.heap u nodes)
      (ghosts : s'.accepted = s.accepted ∧ s'.serial = s.serial ∧ s'.executed = s.executed)
      (executing : (s.pc t).executing = true ∧ (s'.pc t).executing = false ∧
        ∀ u, u ≠ t → (s'.pc u).executing = (s.pc u).executing)

/-- The state after a step keeps the invariant, the nodes keep their jobs, and the step does one of
the four things. -/
def Steps (qThread : Fin nthread → τ) (s : State τ) (nodes : List Nat) (s' : State τ)
    (t : τ) : Prop :=
  ∃ nodes', s'.Inv qThread nodes' ∧
    (∀ a ∈ nodes', (s'.heap a).map Node.val = (s.heap a).map Node.val) ∧
    Effect qThread s nodes s' nodes' t

omit [DecidableEq τ] in
/-- A thread at a place where it has `q_lock` for writing is the writer. -/
theorem Words.of_writer (words : s.Words nodes) (at_ : s.pc t = old) (writer : s.writer = some t) :
    old.Words nodes s.qHead s.qTail := by
  simpa only [State.Words, writer, at_] using words

@[simp] theorem goto_self : (m.goto t pc).pc t = pc := by
  simp [State.goto]

theorem goto_other (pcs : m.pc = s.pc) (other : u ≠ t) : (m.goto t pc).pc u = s.pc u := by
  simp [State.goto, pcs, other]

/-- Another thread goes on, and neither the list nor a lock changes. -/
theorem Rely.goto (pcs : m.pc = s.pc)
    (same : m.heap = s.heap ∧ m.qMutex = s.qMutex ∧ m.writer = s.writer ∧ m.readers = s.readers)
    (other : u ≠ t) :
    Rely s nodes (m.goto t pc) nodes u := by
  obtain ⟨heap, mutex, writer, readers⟩ := same
  refine .of_locks (goto_other pcs other) heap (fun i holds => ?_) ?_ fun holds => ?_
  · simpa only [State.goto, mutex] using holds
  · simp only [State.goto, writer]
  · simpa only [State.goto, readers] using holds

theorem goto_executing (at_ : s.pc t = old) (pcs : m.pc = s.pc)
    (same : pc.executing = old.executing) (u : τ) :
    ((m.goto t pc).pc u).executing = (s.pc u).executing := by
  by_cases here : u = t
  · obtain rfl := here
    rw [goto_self, at_, same]
  · rw [goto_other pcs here]

namespace State.Inv

theorem threads (inv : s.Inv qThread nodes) (t : τ) (others : ∀ u, u ≠ t → Rely s nodes s' nodes' u)
    (own : Holds qThread s' nodes' t (s'.pc t)) (u : τ) : Holds qThread s' nodes' u (s'.pc u) := by
  by_cases same : u = t
  · rwa [same]
  · exact (others u same).holds inv.words (inv.thread u)

theorem apart_goto (inv : s.Inv qThread nodes) (at_ : s.pc t = old) (pcs : m.pc = s.pc)
    (fresh : ∀ x, pc.fresh = some x → old.fresh = some x) (u v : τ) (jp : Nat) (i j : Fin nthread)
    (first : ((m.goto t pc).pc u).fresh = some (jp, i))
    (second : ((m.goto t pc).pc v).fresh = some (jp, j)) : u = v := by
  have earlier (w : τ) (k : Fin nthread) (there : ((m.goto t pc).pc w).fresh = some (jp, k)) :
      (s.pc w).fresh = some (jp, k) := by
    by_cases same : w = t
    · obtain rfl := same
      rw [goto_self] at there
      rw [at_]
      exact fresh _ there
    · rwa [goto_other pcs same] at there
  exact inv.apart u v jp i j (earlier u i first) (earlier v j second)

/-- A step that leaves the list alone. -/
theorem quiet (inv : s.Inv qThread nodes) (at_ : s.pc t = old)
    (same : m.pc = s.pc ∧ m.heap = s.heap)
    (fresh : ∀ x, pc.fresh = some x → old.fresh = some x)
    (others : ∀ u, u ≠ t → Rely s nodes (m.goto t pc) nodes u) (own : Holds qThread m nodes t pc)
    (excl : m.writer ≠ none → m.readers = []) (words : (m.goto t pc).Words nodes) :
    (m.goto t pc).Inv qThread nodes := by
  obtain ⟨pcs, heap⟩ := same
  refine ⟨inv.threads t others ?_, excl, ?_, words, inv.apart_goto at_ pcs fresh⟩
  · rw [goto_self]
    exact ⟨own.mutex, own.writer, own.reader, own.worker, own.fresh, own.regs⟩
  · simp only [State.goto, heap]
    exact inv.list

/-- `q_head` and `q_tail` where a thread that does not write moves on. -/
theorem words_goto (inv : s.Inv qThread nodes) (at_ : s.pc t = old)
    (reads : old.held.writes = false)
    (same : m.pc = s.pc ∧ m.writer = s.writer ∧ m.qHead = s.qHead ∧ m.qTail = s.qTail) :
    (m.goto t pc).Words nodes := by
  obtain ⟨pcs, writer, head, tail⟩ := same
  have words := inv.words
  unfold State.Words at words ⊢
  simp only [State.goto, writer, head, tail, pcs]
  cases locked : s.writer with
  | none => simpa only [locked] using words
  | some u =>
    have other : u ≠ t := by
      rintro rfl
      have writes := (inv.thread u).writer.mp locked
      simp [at_, reads] at writes
    simpa only [locked, Function.update_of_ne other] using words

/-- Where the list, the values and the logs stay, nothing happens to the queues of the workers. -/
theorem steps_quiet (at_ : s.pc t = old) (after : (m.goto t pc).Inv qThread nodes)
    (same : m.pc = s.pc ∧ m.heap = s.heap)
    (ghosts : m.accepted = s.accepted ∧ m.serial = s.serial ∧ m.executed = s.executed)
    (executing : pc.executing = old.executing) : Steps qThread s nodes (m.goto t pc) t := by
  obtain ⟨pcs, heap⟩ := same
  refine ⟨nodes, after, fun a _ => ?_,
    .quiet (fun u => ?_) ghosts (goto_executing at_ pcs executing)⟩
  · simp only [State.goto, heap]
  · simp only [State.goto, heap]

/-- Only the place of a thread that does not write changes. -/
theorem goto (inv : s.Inv qThread nodes) (at_ : s.pc t = old) (held : pc.held = old.held)
    (reads : old.held.writes = false)
    (worker : ∀ i, pc.worker = some i → index qThread t = some i) (fresh : pc.fresh = none)
    (regs : pc.Regs qThread s nodes t) : (s.goto t pc).Inv qThread nodes := by
  have own := inv.own at_
  refine inv.quiet at_ ⟨rfl, rfl⟩ (by simp [fresh]) (fun _ => .goto rfl ⟨rfl, rfl, rfl, rfl⟩)
    ?_ inv.excl
    (inv.words_goto at_ reads ⟨rfl, rfl, rfl, rfl⟩)
  refine ⟨?_, ?_, ?_, worker, by simp [fresh], regs⟩
  · rw [held]
    exact own.mutex
  · rw [held]
    exact own.writer
  · rw [held]
    exact own.reader

theorem lockMutex (inv : s.Inv qThread nodes) (at_ : s.pc t = old)
    (steps : s.lockMutex t i pc = some s')
    (nothing : old.held = {}) (held : pc.held = { mutex := some i })
    (same : pc.worker = old.worker ∧ pc.fresh = old.fresh ∧ pc.executing = old.executing)
    (regs : pc.Regs qThread { s with qMutex := Function.update s.qMutex i (some t) } nodes t) :
    Steps qThread s nodes s' t := by
  have own := inv.own at_
  obtain ⟨worker, fresh, executing⟩ := same
  have reads : old.held.writes = false := by rw [nothing]
  simp only [State.lockMutex] at steps
  split at steps
  · rename_i free
    obtain rfl := Option.some.inj steps
    refine steps_quiet at_
      (inv.quiet at_ ⟨rfl, rfl⟩ ?_ ?_ ?_ inv.excl (inv.words_goto at_ reads ⟨rfl, rfl, rfl, rfl⟩))
      ⟨rfl, rfl⟩ ⟨rfl, rfl, rfl⟩ executing
    · simp [fresh]
    · intro u other
      -- the mutex was free, so whatever another thread has is a different one
      refine .of_locks (goto_other rfl other) rfl (fun j locked => ?_) Iff.rfl fun holds => holds
      have elsewhere : j ≠ i := by
        rintro rfl
        simp [free] at locked
      simpa [State.goto, elsewhere] using locked
    · refine ⟨fun j locked => ?_, ?_, ?_, ?_, ?_, regs⟩
      · obtain rfl : i = j := by simpa [held] using locked
        simp
      · rw [held, own.writer, reads]
      · simp [held]
      · rw [worker]
        exact own.worker
      · rw [fresh]
        exact own.fresh
  · simp at steps

theorem unlockMutex (inv : s.Inv qThread nodes) (at_ : s.pc t = old)
    (steps : s.unlockMutex t i pc = some s')
    (held : old.held = { mutex := some i }) (nothing : pc.held = {})
    (same : pc.worker = old.worker ∧ pc.fresh = none ∧ pc.executing = old.executing)
    (regs : pc.Regs qThread { s with qMutex := Function.update s.qMutex i none } nodes t) :
    Steps qThread s nodes s' t := by
  have own := inv.own at_
  obtain ⟨worker, fresh, executing⟩ := same
  have reads : old.held.writes = false := by rw [held]
  have locked : s.qMutex i = some t := own.mutex i (by rw [held])
  simp only [State.unlockMutex, locked, if_true] at steps
  obtain rfl := Option.some.inj steps
  refine steps_quiet at_
    (inv.quiet at_ ⟨rfl, rfl⟩ ?_ ?_ ?_ inv.excl (inv.words_goto at_ reads ⟨rfl, rfl, rfl, rfl⟩))
    ⟨rfl, rfl⟩ ⟨rfl, rfl, rfl⟩ executing
  · simp [fresh]
  · intro u other
    -- only the mutex of the thread itself is given back
    refine .of_locks (goto_other rfl other) rfl (fun j holds => ?_) Iff.rfl fun holds => holds
    have elsewhere : j ≠ i := by
      rintro rfl
      rw [locked, Option.some.injEq] at holds
      exact other holds.symm
    simpa [State.goto, elsewhere] using holds
  · refine ⟨by simp [nothing], ?_, by simp [nothing], ?_, by simp [fresh], regs⟩
    · rw [nothing, own.writer, reads]
    · rw [worker]
      exact own.worker

theorem lockWrite (inv : s.Inv qThread nodes) (at_ : s.pc t = old)
    (steps : s.lockWrite t pc = some s')
    (before : old.held = { mutex := some i }) (held : pc.held = { mutex := some i, writes := true })
    (same : pc.worker = old.worker ∧ pc.fresh = old.fresh ∧ pc.executing = old.executing)
    (plain : pc.Words nodes s.qHead s.qTail ↔ s.qHead = nodes.head? ∧ s.qTail = nodes.getLast?)
    (regs : pc.Regs qThread { s with writer := some t } nodes t) : Steps qThread s nodes s' t := by
  have own := inv.own at_
  obtain ⟨worker, fresh, executing⟩ := same
  simp only [State.lockWrite, Option.ite_none_right_eq_some, Option.some.injEq] at steps
  obtain ⟨⟨free, alone⟩, rfl⟩ := steps
  refine steps_quiet at_ (inv.quiet at_ ⟨rfl, rfl⟩ ?_ ?_ ?_ (fun _ => alone) ?_) ⟨rfl, rfl⟩ ⟨rfl,
    rfl, rfl⟩ executing
  · simp [fresh]
  · intro u other
    have apart : t ≠ u := fun h => other h.symm
    exact .of_locks (goto_other rfl other) rfl (fun _ holds =>
      holds) (by simp [State.goto, free, apart]) fun holds => holds
  · refine ⟨?_, by simp [held], by simp [held], ?_, ?_, regs⟩
    · have mutex := own.mutex
      rw [before] at mutex
      rwa [held]
    · rw [worker]
      exact own.worker
    · rw [fresh]
      exact own.fresh
  · have words := inv.words
    simp only [State.Words, free] at words
    simpa [State.Words, State.goto] using plain.mpr words

theorem unlockWrite (inv : s.Inv qThread nodes) (at_ : s.pc t = old)
    (steps : s.unlockWrite t pc = some s')
    (before : old.held = { mutex := some i, writes := true }) (held : pc.held = { mutex := some i })
    (same : pc.worker = old.worker ∧ pc.fresh = none ∧ pc.executing = old.executing)
    (plain : old.Words nodes s.qHead s.qTail ↔ s.qHead = nodes.head? ∧ s.qTail = nodes.getLast?)
    (regs : pc.Regs qThread { s with writer := none } nodes t) : Steps qThread s nodes s' t := by
  have own := inv.own at_
  obtain ⟨worker, fresh, executing⟩ := same
  have locked : s.writer = some t := own.writer.mpr (by rw [before])
  simp only [State.unlockWrite, locked, if_true] at steps
  obtain rfl := Option.some.inj steps
  refine steps_quiet at_ (inv.quiet at_ ⟨rfl, rfl⟩ ?_ ?_ ?_ (by simp) ?_) ⟨rfl, rfl⟩ ⟨rfl, rfl,
    rfl⟩ executing
  · simp [fresh]
  · intro u other
    have apart : t ≠ u := fun h => other h.symm
    exact .of_locks (goto_other rfl other) rfl (fun _ holds =>
      holds) (by simp [State.goto, locked, apart]) fun holds => holds
  · refine ⟨?_, by simp [held], by simp [held], ?_, by simp [fresh], regs⟩
    · have mutex := own.mutex
      rw [before] at mutex
      rwa [held]
    · rw [worker]
      exact own.worker
  · exact plain.mp (Words.of_writer inv.words at_ locked)

theorem lockRead (inv : s.Inv qThread nodes) (at_ : s.pc t = old)
    (steps : s.lockRead t pc = some s')
    (before : old.held = { mutex := some i }) (held : pc.held = { mutex := some i, reads := true })
    (same : pc.worker = old.worker ∧ pc.fresh = none ∧ pc.executing = old.executing)
    (regs : s.writer = none → pc.Regs qThread { s with readers := t :: s.readers } nodes t) :
    Steps qThread s nodes s' t := by
  have own := inv.own at_
  obtain ⟨worker, fresh, executing⟩ := same
  simp only [State.lockRead, Option.ite_none_right_eq_some, Option.some.injEq] at steps
  obtain ⟨free, rfl⟩ := steps
  have reads : old.held.writes = false := by rw [before]
  refine steps_quiet at_ (inv.quiet at_ ⟨rfl, rfl⟩ ?_ ?_ ?_ (by simp [free])
    (inv.words_goto at_ reads ⟨rfl, rfl, rfl, rfl⟩)) ⟨rfl, rfl⟩ ⟨rfl, rfl, rfl⟩ executing
  · simp [fresh]
  · intro u other
    exact .of_locks (goto_other rfl other) rfl (fun _ holds => holds) Iff.rfl
      (List.mem_cons_of_mem t)
  · refine ⟨?_, ?_, by simp, ?_, by simp [fresh], regs free⟩
    · have mutex := own.mutex
      rw [before] at mutex
      rwa [held]
    · rw [held, own.writer, reads]
    · rw [worker]
      exact own.worker

theorem unlockRead (inv : s.Inv qThread nodes) (at_ : s.pc t = old)
    (steps : s.unlockRead t pc = some s')
    (before : old.held = { mutex := some i, reads := true }) (held : pc.held = { mutex := some i })
    (same : pc.worker = old.worker ∧ pc.fresh = none ∧ pc.executing = old.executing)
    (regs : pc.Regs qThread { s with readers := s.readers.erase t } nodes t) :
    Steps qThread s nodes s' t := by
  have own := inv.own at_
  obtain ⟨worker, fresh, executing⟩ := same
  have there : t ∈ s.readers := own.reader (by rw [before])
  simp only [State.unlockRead, there, if_true] at steps
  obtain rfl := Option.some.inj steps
  have reads : old.held.writes = false := by rw [before]
  refine steps_quiet at_
    (inv.quiet at_ ⟨rfl, rfl⟩ ?_ ?_ ?_ ?_ (inv.words_goto at_ reads ⟨rfl, rfl, rfl, rfl⟩))
    ⟨rfl, rfl⟩ ⟨rfl, rfl, rfl⟩ executing
  · simp [fresh]
  · intro u other
    exact .of_locks (goto_other rfl other) rfl (fun _ holds => holds) Iff.rfl
      (List.mem_erase_of_ne other).mpr
  · refine ⟨?_, ?_, by simp [held], ?_, by simp [fresh], regs⟩
    · have mutex := own.mutex
      rw [before] at mutex
      rwa [held]
    · rw [held, own.writer, reads]
    · rw [worker]
      exact own.worker
  · -- there is no writer, since the thread has been a reader until now
    intro writing
    simp [inv.excl writing] at there

/-! ## Into the list -/

/-- Nobody else reads or writes the list while a thread has `q_lock` for writing. -/
theorem writer_alone (inv : s.Inv qThread nodes) (locked : s.writer = some t) (other : u ≠ t) :
    ¬((s.pc u).held.reads = true ∨ (s.pc u).held.writes = true) := by
  rintro (reads | writes)
  · have there := (inv.thread u).reader reads
    simp [inv.excl (by simp [locked])] at there
  · have mine := (inv.thread u).writer.mpr writes
    rw [locked, Option.some.injEq] at mine
    exact other mine.symm

/-- A worker that has its mutex is not the one a job is being linked for. -/
theorem not_target (inv : s.Inv qThread nodes) (locked : s.qMutex i = some t)
    (target : index qThread a' = some i)
    (worker : (s.pc u).worker = some j) (holds : (s.pc u).held.mutex = some j) (other : u ≠ t) :
    a' ≠ u := by
  rintro rfl
  have same := (inv.thread a').worker j worker
  rw [target, Option.some.injEq] at same
  have mine := (inv.thread a').mutex j holds
  rw [← same, locked, Option.some.injEq] at mine
  exact other mine.symm

/-- A new node becomes part of the list. -/
theorem linked {front : Bool} {heap : Heap (Job τ)} {qHead qTail : Option Nat} {node : Node (Job τ)}
    (inv : s.Inv qThread nodes) (at_ : s.pc t = .link front jp i) (here : s.heap jp = some node)
    (list : DoublyLinked heap nodes') (values : s.heap.SameValues heap)
    (away : ∀ a, a ∉ nodes' → heap a = s.heap a)
    (members : ∀ a, a ∈ nodes' ↔ a = jp ∨ a ∈ nodes)
    (mine : ∀ u, mine heap u nodes' = if node.val.jId = u then
      if front then jp :: mine s.heap u nodes else mine s.heap u nodes ++
        [jp] else mine s.heap u nodes)
    (words : (Pc.finish front jp i).Words nodes' qHead qTail) :
    Steps qThread s nodes ({ s with
      heap := heap
      qHead := qHead
      qTail := qTail
      accepted := s.accepted ++ [(front, node.val)]
      serial := Function.update s.serial jp s.accepted.length }.goto t (.finish front jp i)) t := by
  have own := inv.own at_
  have locked : s.writer = some t := own.writer.mpr rfl
  have mutex : s.qMutex i = some t := own.mutex i rfl
  -- the caller has the mutex of the worker the job is for, so a worker that has its own mutex is another one
  obtain ⟨outside, node', there, target⟩ := own.fresh jp i rfl
  obtain rfl : node = node' := by simpa [here] using there
  refine ⟨nodes', ⟨inv.threads t ?_ ?_, inv.excl, list, ?_, ?_⟩, fun a _ => values a,
    .linked front jp node.val i target
    (by simp [Pc.owesSignal]) outside (by simp [here]) mine ⟨rfl, rfl, rfl⟩ ?_ ?_⟩
  · intro u other
    refine ⟨goto_other rfl other, fun _ holds => holds, Iff.rfl, fun holds => holds,
      fun a k fresh private_ => ?_,
      fun uses => ?_, fun k worker holds => ?_⟩
    · have elsewhere : a ≠ jp := by
        rintro rfl
        exact other (inv.apart u t a k i fresh (by rw [at_]; rfl))
      have still : a ∉ nodes' := by simp [members, elsewhere, private_]
      exact ⟨away a still, still⟩
    · exact absurd uses (inv.writer_alone locked other)
    · have foreign := inv.not_target mutex target worker holds other
      simpa [State.goto, foreign] using mine u
  · rw [goto_self]
    refine ⟨own.mutex, own.writer, by simp [Pc.held], by simp [Pc.worker], by simp [Pc.fresh], ?_⟩
    have value := values jp
    rw [here] at value
    obtain ⟨node', after, vals⟩ := Option.map_eq_some_iff.mp value
    exact ⟨node', after, by rw [vals, target]⟩
  · simpa [State.Words, State.goto, locked] using words
  · exact inv.apart_goto at_ rfl (by simp [Pc.fresh])
  · exact goto_executing at_ rfl rfl
  · by_contra busy
    simp only [Bool.not_eq_false] at busy
    obtain ⟨k, worker, holds⟩ := Pc.executing_held busy
    by_cases self : node.val.jId = t
    · rw [self, at_] at busy
      simp [Pc.executing] at busy
    · exact inv.not_target mutex target worker holds self rfl

theorem link {front : Bool} (inv : s.Inv qThread nodes) (at_ : s.pc t = .link front jp i) :
    Steps qThread s nodes (s.linkJob t front jp i) t := by
  have own := inv.own at_
  obtain ⟨outside, node, here, target⟩ := own.fresh jp i rfl
  obtain ⟨head, last⟩ := Words.of_writer inv.words at_ (own.writer.mpr rfl)
  have value : (s.heap jp).map Node.val = some node.val := by simp [here]
  have alone (u : τ) : mine s.heap u [jp] = if node.val.jId = u then [jp] else [] := mine_cons value
  cases front with
  | false =>
    obtain ⟨heap, appends, list, values, away⟩ := jobAppend_spec inv.list outside here
    rw [← head, ← last] at appends
    simp only [State.linkJob, here, appends, Bool.false_eq_true, if_false]
    refine inv.linked at_ here list values away (by simp [or_comm]) (fun u => ?_) ⟨nodes,
      rfl, rfl, last⟩
    rw [mine_congr fun a _ => values a, mine_append, alone u]
    split
    · rfl
    · simp
  | true =>
    obtain ⟨heap, inserts, list, values, away⟩ := jobInsert_spec inv.list outside here
    rw [← head, ← last] at inserts
    simp only [State.linkJob, here, inserts, if_true]
    refine inv.linked at_ here list values away (by simp) (fun u => ?_) ⟨nodes, rfl, head, rfl⟩
    rw [mine_congr fun a _ => values a, mine_cons value]
    rfl

theorem finish {front : Bool} {qHead qTail : Option Nat} (inv : s.Inv qThread nodes)
    (at_ : s.pc t = .finish front jp i)
    (words : qHead = nodes.head? ∧ qTail = nodes.getLast?) :
    Steps qThread s nodes ({ s with qHead := qHead, qTail := qTail }.goto t (.wrunlock i)) t := by
  have own := inv.own at_
  have locked : s.writer = some t := own.writer.mpr rfl
  refine steps_quiet at_
    (inv.quiet at_ ⟨rfl, rfl⟩ (by simp [Pc.fresh]) (fun _ => .goto rfl ⟨rfl, rfl, rfl, rfl⟩) ?_
    inv.excl ?_)
    ⟨rfl, rfl⟩ ⟨rfl, rfl, rfl⟩ rfl
  · exact ⟨own.mutex, own.writer, by simp [Pc.held], by simp [Pc.worker], by simp [Pc.fresh], trivial⟩
  · simp only [State.Words, State.goto, locked, Function.update_self]
    exact words

/-! ## Out of the list -/

theorem execute (inv : s.Inv qThread nodes) (at_ : s.pc t = .execute i jp) :
    Steps qThread s nodes ({ s with executed := s.executed ++ [(t, s.serial jp)] }.goto t
      (.removeLock i jp)) t := by
  have own := inv.own at_
  refine ⟨nodes, inv.quiet at_ ⟨rfl, rfl⟩ (by simp [Pc.fresh]) (fun _ =>
    .goto rfl ⟨rfl, rfl, rfl, rfl⟩) ?_ inv.excl ?_,
    fun _ _ => rfl, .executed jp own.regs (fun _ => rfl) ⟨rfl, rfl, rfl⟩ ⟨?_, ?_,
      fun u other => ?_⟩⟩
  · exact ⟨own.mutex, own.writer, by simp [Pc.held], own.worker, by simp [Pc.fresh], own.regs⟩
  · exact inv.words_goto at_ rfl ⟨rfl, rfl, rfl, rfl⟩
  · rw [at_]
    rfl
  · rw [goto_self]
    rfl
  · rw [goto_other rfl other]

/-- What `job_find` has found is on the list. -/
theorem mem_of_first (first : (mine s.heap t nodes).head? = some jp) :
    jp ∈ nodes ∧ ∃ node, s.heap jp = some node ∧ node.val.jId = t :=
  mem_mine.mp (List.mem_of_mem_head? first)

theorem removeEnds (inv : s.Inv qThread nodes) (at_ : s.pc t = .removeEnds i jp) :
    ∃ ends qHead qTail, Queue.removeEnds s.heap s.qHead s.qTail jp = some (ends, qHead, qTail) ∧
      Steps qThread s nodes
        ({ s with qHead := qHead, qTail := qTail }.goto t (.removeLinks i jp ends)) t := by
  have own := inv.own at_
  have locked : s.writer = some t := own.writer.mpr rfl
  obtain ⟨head, last⟩ := Words.of_writer inv.words at_ locked
  obtain ⟨ends, qHead, qTail, chosen, words⟩ := removeEnds_spec inv.list (mem_of_first own.regs).1 i
  rw [← head, ← last] at chosen
  refine ⟨ends, qHead, qTail, chosen, steps_quiet at_ (inv.quiet at_ ⟨rfl, rfl⟩ (by simp [Pc.fresh])
    (fun _ => .goto rfl ⟨rfl, rfl, rfl, rfl⟩) ?_ inv.excl ?_) ⟨rfl, rfl⟩ ⟨rfl, rfl, rfl⟩ rfl⟩
  · exact ⟨own.mutex, own.writer, by simp [Pc.held], own.worker, by simp [Pc.fresh], own.regs⟩
  · simpa only [State.Words, State.goto, locked, Function.update_self] using words

theorem removeLinks {ends : Ends} (inv : s.Inv qThread nodes)
    (at_ : s.pc t = .removeLinks i jp ends) :
    ∃ heap qTail, Queue.removeLinks s.heap s.qTail jp ends = some (heap, qTail) ∧
      Steps qThread s nodes
        ({ s with heap := heap, qTail := qTail }.goto t (.removeUnlock i)) t := by
  have own := inv.own at_
  have locked : s.writer = some t := own.writer.mpr rfl
  have first : (mine s.heap t nodes).head? = some jp := own.regs
  obtain ⟨_, node, here, self⟩ := mem_of_first first
  have value : (s.heap jp).map Node.val = some node.val := by simp [here]
  obtain ⟨before, after, heap, qTail, rfl, removes, list, head, last, values, away⟩ :=
    removeLinks_spec inv.list (Words.of_writer inv.words at_ locked)
  have distinct := (List.nodup_middle.mp inv.list.nodup).notMem
  have rest (u : τ) :
      mine heap u (before ++ after) = mine s.heap u before ++ mine s.heap u after := by
    rw [← mine_append]
    exact mine_congr fun a member => values a fun same => distinct (same ▸ member)
  have whole (u : τ) : mine s.heap u (before ++ jp :: after) =
      mine s.heap u before ++ if node.val.jId = u then jp :: mine s.heap u after else mine s.heap u
        after := by
    rw [mine_append, mine_cons value]
  -- the job is the thread's own, so the others do not miss it
  have others {u : τ} (other : u ≠ t) :
      mine heap u (before ++ after) = mine s.heap u (before ++ jp :: after) := by
    have foreign : node.val.jId ≠ u := by
      rw [self]
      exact fun same => other same.symm
    rw [rest u, whole u, if_neg foreign]
  have own_rest : mine heap t (before ++ after) = (mine s.heap t (before ++ jp :: after)).tail := by
    rw [whole t, if_pos self] at first
    -- the node is the first one of the thread, so none of its own comes before it
    have none : mine s.heap t before = [] := by
      cases split : mine s.heap t before with
      | nil => rfl
      | cons b more =>
        have same : b = jp := by simpa [split] using first
        have there : b ∈ before := (mem_mine.mp (split ▸ List.mem_cons_self)).1
        exact absurd (List.mem_append_left after (same ▸ there)) distinct
    rw [rest t, whole t, if_pos self, none]
    rfl
  refine ⟨heap, qTail, removes, before ++ after,
    ⟨inv.threads t ?_ ?_, inv.excl, list, ?_, inv.apart_goto at_ rfl (by simp [Pc.fresh])⟩,
    fun a member => values a fun same => distinct (same ▸ member),
      .removed (fun u => ?_) ⟨rfl, rfl, rfl⟩ ⟨?_, ?_, fun u other => ?_⟩⟩
  · intro u other
    refine ⟨goto_other rfl other, fun _ holds => holds, Iff.rfl, fun holds => holds,
      fun a k fresh private_ => ⟨away a private_, fun there => private_ ?_⟩,
      fun uses => absurd uses (inv.writer_alone locked other), fun k worker holds => others other⟩
    rw [List.mem_append, List.mem_cons]
    rw [List.mem_append] at there
    exact there.imp_right .inr
  · rw [goto_self]
    exact ⟨own.mutex, own.writer, by simp [Pc.held], own.worker, by simp [Pc.fresh], trivial⟩
  · simp only [State.Words, State.goto, locked, Function.update_self]
    exact ⟨head, last⟩
  · by_cases same : u = t
    · obtain rfl := same
      rw [if_pos rfl]
      exact own_rest
    · rw [if_neg same]
      exact others same
  · rw [at_]
    rfl
  · rw [goto_self]
    rfl
  · rw [goto_other rfl other]

/-! ## The emptiness test -/

omit [DecidableEq τ] in
/-- Neither `q_head` nor `q_tail` is null at any time while there is another node than the one being
linked or taken out. -/
theorem words_some {qHead qTail : Option Nat} (words : pc.Words nodes qHead qTail)
    (member : a ∈ nodes)
    (other : pc.busy ≠ some a) : qHead ≠ none ∧ qTail ≠ none := by
  have some_ : nodes ≠ [] := List.ne_nil_of_mem member
  have plain (words : qHead = nodes.head? ∧ qTail = nodes.getLast?) :
      qHead ≠ none ∧ qTail ≠ none := by
    obtain ⟨rfl, rfl⟩ := words
    simpa using some_
  cases pc
  case finish front jp i =>
    have apart : a ≠ jp := fun same => other (by rw [same]; rfl)
    cases front with
    | false =>
      obtain ⟨old, rfl, rfl, rfl⟩ := words
      have there : a ∈ old := by simpa [apart] using member
      simpa using List.ne_nil_of_mem there
    | true =>
      obtain ⟨old, rfl, rfl, rfl⟩ := words
      have there : a ∈ old := by simpa [apart] using member
      simpa using List.ne_nil_of_mem there
  case removeLinks i jp ends =>
    have apart : a ≠ jp := fun same => other (by rw [same]; rfl)
    cases ends with
    | head =>
      obtain ⟨after, rfl, rfl, rfl⟩ := words
      have there : a ∈ after := by simpa [apart] using member
      simpa using List.ne_nil_of_mem there
    | tail =>
      obtain ⟨before, rfl, some_, rfl, rfl⟩ := words
      simpa using some_
    | middle => exact plain words.2
  all_goals exact plain words

/-- A worker that has its mutex and a job on the list sees that the list is not empty. -/
theorem ends_of_mine (inv : s.Inv qThread nodes) (at_ : s.pc u = old)
    (worker : old.worker = some j ∧ old.held.mutex = some j ∧ old.held.writes = false)
    (some_ : mine s.heap u nodes ≠ []) : s.qHead ≠ none ∧ s.qTail ≠ none := by
  obtain ⟨found, holds, reads⟩ := worker
  obtain ⟨a, there⟩ := List.exists_mem_of_ne_nil _ some_
  obtain ⟨member, node, here, self⟩ := mem_mine.mp there
  have words := inv.words
  unfold State.Words at words
  cases locked : s.writer with
  | none =>
    simp only [locked] at words
    exact words_some (show Pc.idle.Words nodes s.qHead s.qTail from words) member
      (by simp [Pc.busy])
  | some t =>
    simp only [locked] at words
    refine words_some words member fun busy => ?_
    have own := inv.thread t
    have other : u ≠ t := by
      rintro rfl
      have writes := own.writer.mp locked
      simp [at_, reads] at writes
    -- the one node that may be cut off is for another worker
    cases at_t : s.pc t
    case finish front jp i =>
      rw [at_t] at own busy
      obtain rfl : jp = a := by simpa [Pc.busy] using busy
      obtain ⟨node', here', target⟩ := own.regs
      obtain rfl : node = node' := by simpa [here] using here'
      exact inv.not_target (own.mutex i rfl) target
        (by rw [at_, found]) (by rw [at_, holds]) other self
    case removeLinks i jp ends =>
      rw [at_t] at own busy
      obtain rfl : jp = a := by simpa [Pc.busy] using busy
      obtain ⟨_, node', here', self'⟩ := mem_of_first own.regs
      obtain rfl : node = node' := by simpa [here] using here'
      exact other (self.symm.trans self')
    all_goals
      rw [at_t] at busy
      simp [Pc.busy] at busy

/-! ## The other steps -/

theorem wake (inv : s.Inv qThread nodes) (i : Fin nthread) :
    (s.wake qThread i).Inv qThread nodes := by
  unfold State.wake
  split
  · rename_i second j at_
    split
    · rename_i same
      have own := inv.thread (qThread i)
      rw [at_] at own
      refine inv.goto at_ rfl rfl (fun k worker => ?_) rfl trivial
      exact own.worker k (by rw [← worker, same]; rfl)
    · exact inv
  · exact inv

theorem wake_pc (qThread : Fin nthread → τ) (s : State τ) (i : Fin nthread) (u : τ) :
    (s.wake qThread i).pc u = s.pc u ∨
      ∃ second, s.pc u = .blocked second i ∧ (s.wake qThread i).pc u = .woken second i := by
  unfold State.wake
  split
  · rename_i second j at_
    split
    · rename_i same
      by_cases here : u = qThread i
      · exact .inr ⟨second, by rw [here, at_, same], by simp [here]⟩
      · exact .inl (goto_other rfl here)
    · exact .inl rfl
  · exact .inl rfl

theorem wake_same (qThread : Fin nthread → τ) (s : State τ) (i : Fin nthread) :
    (s.wake qThread i).heap = s.heap ∧ (s.wake qThread i).accepted = s.accepted ∧
      (s.wake qThread i).serial = s.serial ∧
      (s.wake qThread i).executed = s.executed := by
  unfold State.wake
  split
  · split
    all_goals exact ⟨rfl, rfl, rfl, rfl⟩
  · exact ⟨rfl, rfl, rfl, rfl⟩

theorem signal (inv : s.Inv qThread nodes) (at_ : s.pc t = .signal i) :
    Steps qThread s nodes ((s.wake qThread i).goto t .idle) t := by
  have still : (s.wake qThread i).pc t = .signal i := by
    obtain same | ⟨_, blocked, _⟩ := wake_pc qThread s i t
    · rw [same, at_]
    · simp [at_] at blocked
  obtain ⟨heap, accepted, serial, executed⟩ := wake_same qThread s i
  refine ⟨nodes, (inv.wake i).goto still rfl rfl (by simp [Pc.worker]) rfl trivial, fun a _ => ?_,
    .quiet (fun u => ?_) ⟨accepted, serial, executed⟩ fun u => ?_⟩
  · simp only [State.goto, heap]
  · simp only [State.goto, heap]
  · have neither : Pc.idle.executing = (Pc.signal i).executing := rfl
    rw [goto_executing still rfl neither]
    obtain same | ⟨_, blocked, woken⟩ := wake_pc qThread s i u
    · rw [same]
    · rw [blocked, woken]
      rfl

theorem search {p : Option Nat} (inv : s.Inv qThread nodes) (at_ : s.pc t = .search i p)
    (steps : s.run qThread t = some s') : Steps qThread s nodes s' t := by
  have own := inv.own at_
  obtain ⟨before, after, split, first, none⟩ := own.regs
  simp only [State.run, at_] at steps
  cases after with
  | nil =>
    obtain rfl : p = Option.none := first
    obtain rfl := Option.some.inj steps
    refine steps_quiet at_ (inv.goto at_ rfl rfl own.worker rfl ?_) ⟨rfl, rfl⟩ ⟨rfl, rfl, rfl⟩ rfl
    rw [List.append_nil] at split
    rw [split]
    exact none
  | cons jp rest =>
    obtain rfl : p = some jp := first
    obtain ⟨val, here⟩ := inv.list.linked before jp rest split
    have value : (s.heap jp).map Node.val = some val := by simp [here]
    simp only [here] at steps
    obtain rfl := Option.some.inj steps
    by_cases self : val.jId = t
    · rw [if_pos self]
      refine steps_quiet at_ (inv.goto at_ rfl rfl own.worker rfl ?_) ⟨rfl, rfl⟩ ⟨rfl, rfl, rfl⟩ rfl
      have jobs : mine s.heap t nodes = jp :: mine s.heap t rest := by
        rw [split, mine_append, none, mine_cons value, if_pos self]
        rfl
      simp [Pc.Regs, jobs]
    · rw [if_neg self]
      refine steps_quiet at_ (inv.goto at_ rfl rfl own.worker rfl ?_) ⟨rfl, rfl⟩ ⟨rfl, rfl, rfl⟩ rfl
      refine ⟨before ++ [jp], rest, by simp [split], rfl, ?_⟩
      rw [mine_append, none, mine_cons value, if_neg self]
      rfl

theorem run (inv : s.Inv qThread nodes) (steps : s.run qThread t = some s') :
    Steps qThread s nodes s' t := by
  have own := inv.thread t
  cases at_ : s.pc t
  case search i p => exact inv.search at_ steps
  all_goals
    rw [at_] at own
    simp only [State.run, at_] at steps
  case idle | fault | blocked => simp at steps
  case mutex front jp i => exact inv.lockMutex at_ steps rfl rfl ⟨rfl, rfl, rfl⟩ trivial
  case wrlock front jp i => exact inv.lockWrite at_ steps rfl rfl ⟨rfl, rfl, rfl⟩ Iff.rfl trivial
  case link front jp i =>
    obtain rfl := Option.some.inj steps
    exact inv.link at_
  case finish front jp i =>
    have words := Words.of_writer inv.words at_ (own.writer.mpr rfl)
    cases front with
    | false =>
      obtain ⟨old, split, head, _⟩ := words
      obtain rfl := Option.some.inj steps
      exact inv.finish at_ ⟨head, by simp [split]⟩
    | true =>
      obtain ⟨old, split, _, last⟩ := words
      obtain rfl := Option.some.inj steps
      exact inv.finish at_ ⟨by simp [split], last⟩
  case wrunlock i => exact inv.unlockWrite at_ steps rfl rfl ⟨rfl, rfl, rfl⟩ Iff.rfl trivial
  case unlock i => exact inv.unlockMutex at_ steps rfl rfl ⟨rfl, rfl, rfl⟩ trivial
  case signal i =>
    obtain rfl := Option.some.inj steps
    exact inv.signal at_
  case lock i => exact inv.lockMutex at_ steps rfl rfl ⟨rfl, rfl, rfl⟩ trivial
  case testTail i =>
    obtain rfl := Option.some.inj steps
    split
    · rename_i empty
      refine steps_quiet at_ (inv.goto at_ rfl rfl own.worker rfl ?_) ⟨rfl, rfl⟩ ⟨rfl, rfl, rfl⟩ rfl
      by_contra some_
      exact (inv.ends_of_mine at_ ⟨rfl, rfl, rfl⟩ some_).2 empty
    · exact steps_quiet at_ (inv.goto at_ rfl rfl own.worker rfl trivial) ⟨rfl, rfl⟩ ⟨rfl,
        rfl, rfl⟩ rfl
  case testHead i =>
    obtain rfl := Option.some.inj steps
    split
    · rename_i empty
      refine steps_quiet at_ (inv.goto at_ rfl rfl own.worker rfl ?_) ⟨rfl, rfl⟩ ⟨rfl, rfl, rfl⟩ rfl
      by_contra some_
      exact (inv.ends_of_mine at_ ⟨rfl, rfl, rfl⟩ some_).1 empty
    · exact steps_quiet at_ (inv.goto at_ rfl rfl own.worker rfl trivial) ⟨rfl, rfl⟩ ⟨rfl,
        rfl, rfl⟩ rfl
  case wait second i => exact inv.unlockMutex at_ steps rfl rfl ⟨rfl, rfl, rfl⟩ trivial
  case woken second i =>
    cases second with
    | false => exact inv.lockMutex at_ steps rfl rfl ⟨rfl, rfl, rfl⟩ trivial
    | true => exact inv.lockMutex at_ steps rfl rfl ⟨rfl, rfl, rfl⟩ trivial
  case rdlock i =>
    -- nobody writes, so `q_head` is the first node and the search starts with the whole list
    refine inv.lockRead at_ steps rfl rfl ⟨rfl, rfl, rfl⟩ fun free => ?_
    have words := inv.words
    simp only [State.Words, free] at words
    exact ⟨[], nodes, rfl, words.1, rfl⟩
  case rdunlock i p =>
    cases p with
    | none => exact inv.unlockRead at_ steps rfl rfl ⟨rfl, rfl, rfl⟩ own.regs
    | some jp => exact inv.unlockRead at_ steps rfl rfl ⟨rfl, rfl, rfl⟩ own.regs
  case execute i jp =>
    obtain ⟨_, node, here, _⟩ := mem_of_first own.regs
    simp only [here] at steps
    obtain rfl := Option.some.inj steps
    exact inv.execute at_
  case removeLock i jp => exact inv.lockWrite at_ steps rfl rfl ⟨rfl, rfl, rfl⟩ Iff.rfl own.regs
  case removeEnds i jp =>
    obtain ⟨ends, qHead, qTail, chosen, after⟩ := inv.removeEnds at_
    simp only [chosen] at steps
    obtain rfl := Option.some.inj steps
    exact after
  case removeLinks i jp ends =>
    obtain ⟨heap, qTail, removes, after⟩ := inv.removeLinks at_
    simp only [removes] at steps
    obtain rfl := Option.some.inj steps
    exact after
  case removeUnlock i => exact inv.unlockWrite at_ steps rfl rfl ⟨rfl, rfl, rfl⟩ Iff.rfl trivial
  case notFound i => exact inv.unlockMutex at_ steps rfl rfl ⟨rfl, rfl, rfl⟩ trivial
  case relock i => exact inv.lockMutex at_ steps rfl rfl ⟨rfl, rfl, rfl⟩ trivial
  case turn i => exact inv.unlockMutex at_ steps rfl rfl ⟨rfl, rfl, rfl⟩ trivial

/-- A node that is allocated is not yet part of anything. -/
theorem malloc (inv : s.Inv qThread nodes) (node : Node (Job τ)) (free : s.heap jp = none) :
    State.Inv qThread { s with heap := Function.update s.heap jp (some node) } nodes ∧ jp ∉ nodes ∧
      (∀ a ∈ nodes, (Function.update s.heap jp (some node) a).map Node.val =
        (s.heap a).map Node.val) ∧
      ∀ u k, (s.pc u).fresh ≠ some (jp, k) := by
  have outside : jp ∉ nodes := fun member => by
    obtain ⟨_, there⟩ := inv.list.allocated member
    simp [free] at there
  have unused (u : τ) (k : Fin nthread) : (s.pc u).fresh ≠ some (jp, k) := fun fresh => by
    obtain ⟨_, _, there, _⟩ := (inv.thread u).fresh jp k fresh
    simp [free] at there
  have kept {a : Nat} (member : a ∈ nodes) :
      Function.update s.heap jp (some node) a = s.heap a := by
    have other : a ≠ jp := fun same => outside (same ▸ member)
    simp [other]
  have values (a : Nat) (member : a ∈ nodes) :
      (Function.update s.heap jp (some node) a).map Node.val = (s.heap a).map Node.val := by
        rw [kept member]
  refine ⟨⟨fun u => ?_, inv.excl, inv.list.congr fun a member => kept member, inv.words, inv.apart⟩,
    outside, values, unused⟩
  have rely : Rely s nodes { s with heap := Function.update s.heap jp (some node) } nodes u := by
    refine ⟨rfl, fun _ holds => holds, Iff.rfl, fun holds => holds, fun a k fresh private_ =>
      ⟨?_, private_⟩,
      fun _ => ⟨rfl, fun a member => kept member⟩, fun _ _ _ => mine_congr values⟩
    have other : a ≠ jp := by
      rintro rfl
      exact unused u k fresh
    simp [other]
  exact rely.holds inv.words (inv.thread u)

theorem add {front : Bool} {node : Node (Job τ)} (inv : s.Inv qThread nodes) (idle : s.pc t = .idle)
    (free : s.heap jp = none) (target : index qThread node.val.jId = some i) :
    Steps qThread s nodes
      ({ s with heap := Function.update s.heap jp (some node) }.goto t (.mutex front jp i)) t := by
  obtain ⟨allocated, outside, values, unused⟩ := inv.malloc node free
  have still : ({ s with heap := Function.update s.heap jp (some node) } : State τ).pc t =
    .idle := idle
  have own := allocated.own still
  refine ⟨nodes, ⟨allocated.threads t (fun _ => .goto rfl ⟨rfl, rfl, rfl, rfl⟩) ?_, inv.excl,
    allocated.list,
    allocated.words_goto still rfl ⟨rfl, rfl, rfl, rfl⟩, ?_⟩, values,
      .quiet (fun u => mine_congr values) ⟨rfl, rfl, rfl⟩
    (goto_executing idle rfl rfl)⟩
  · rw [goto_self]
    refine ⟨by simp [Pc.held], own.writer, by simp [Pc.held], by simp [Pc.worker], fun a k fresh => ?_, trivial⟩
    obtain ⟨rfl, rfl⟩ : jp = a ∧ i = k := by simpa [Pc.fresh] using fresh
    exact ⟨outside, node, by simp [State.goto], target⟩
  · -- nobody else can have the address
    intro u v a k l first second
    by_cases here : u = t
    · by_cases there : v = t
      · rw [here, there]
      · rw [here, goto_self] at first
        rw [goto_other rfl there] at second
        obtain ⟨rfl, rfl⟩ : jp = a ∧ i = k := by simpa [Pc.fresh] using first
        exact absurd second (unused v l)
    · rw [goto_other rfl here] at first
      by_cases there : v = t
      · rw [there, goto_self] at second
        obtain ⟨rfl, rfl⟩ : jp = a ∧ i = l := by simpa [Pc.fresh] using second
        exact absurd first (unused u k)
      · rw [goto_other rfl there] at second
        exact inv.apart u v a k l first second

theorem step {action : Action τ} (inv : s.Inv qThread nodes)
    (steps : s.step qThread action = some s') :
    Steps qThread s nodes s' (actor action) := by
  have same : Steps qThread s nodes s (actor action) :=
    ⟨nodes, inv, fun _ _ => rfl, .quiet (fun _ => rfl) ⟨rfl, rfl, rfl⟩ fun _ => rfl⟩
  cases action with
  | add t front node p =>
    simp only [State.step] at steps
    split at steps
    · obtain rfl := Option.some.inj steps
      exact same
    · rename_i jp idle
      split at steps
      · simp at steps
      · rename_i free
        split at steps
        · -- nobody looks for jobs of this thread, and the memory is lost
          obtain rfl := Option.some.inj steps
          obtain ⟨allocated, _, values, _⟩ := inv.malloc node free
          exact ⟨nodes, allocated, values,
            .quiet (fun u => mine_congr values) ⟨rfl, rfl, rfl⟩ fun _ => rfl⟩
        · rename_i i target
          obtain rfl := Option.some.inj steps
          exact inv.add idle free target
    · simp at steps
  | handleJob t =>
    simp only [State.step] at steps
    split at steps
    · rename_i idle
      split at steps
      · obtain rfl := Option.some.inj steps
        exact same
      · rename_i i found
        obtain rfl := Option.some.inj steps
        refine steps_quiet idle (inv.goto idle rfl rfl (fun k worker => ?_) rfl trivial) ⟨rfl,
          rfl⟩ ⟨rfl, rfl, rfl⟩ rfl
        rw [found]
        exact worker
    · simp at steps
  | run t => exact inv.run steps
  | spurious t =>
    simp only [State.step] at steps
    split at steps
    · rename_i second i at_
      have own := inv.own at_
      obtain rfl := Option.some.inj steps
      exact steps_quiet at_ (inv.goto at_ rfl rfl own.worker rfl trivial) ⟨rfl, rfl⟩ ⟨rfl,
        rfl, rfl⟩ rfl
    · simp at steps

theorem start : State.Inv qThread (.start : State τ) [] := by
  refine ⟨fun t => ?_, by simp [State.start], .empty _, ⟨rfl, rfl⟩, fun t u jp i j fresh => ?_⟩
  · exact ⟨by simp [State.start, Pc.held], by simp [State.start, Pc.held], by simp [State.start, Pc.held],
      by simp [State.start, Pc.worker], by simp [State.start, Pc.fresh], trivial⟩
  · simp [State.start, Pc.fresh] at fresh

end State.Inv

end Apue.Threads.Queue
