import Apue.Threads.Queue

/-! # The list behind the queue

`nodes` names the nodes of the list.  The links are right in every state, because they are changed
in one step; what `q_head` and `q_tail` are in the middle of a critical section is said by the place
of the thread that has `q_lock` for writing.

Every worker sees a queue of its own, the jobs that are for it (`mine`).  As long as it has its
mutex nobody adds to them, and nobody else ever takes one of them out; so what `job_find` has told
it stays true until it calls `job_remove`.
-/

namespace Apue.Threads.Queue

open Apue.Base

variable {τ : Type}

/-- The locks a thread has at a place. -/
structure Held where
  mutex : Option (Fin nthread) := none
  writes : Bool := false
  reads : Bool := false

def Pc.held : Pc → Held
  | .idle | .fault | .mutex _ _ _ | .signal _ | .lock _ | .blocked _ _ | .woken _ _ | .relock _ =>
    {}
  | .wrlock _ _ i | .unlock i | .testTail i | .testHead i | .wait _ i | .rdlock i | .execute i _ | .removeLock i _
  | .notFound i | .turn i => { mutex := some i }
  | .link _ _ i | .finish _ _ i | .wrunlock i | .removeEnds i _ | .removeLinks i _ _ | .removeUnlock i =>
    { mutex := some i, writes := true }
  | .search i _ | .rdunlock i _ => { mutex := some i, reads := true }

/-- The index a thread in `handle_job` has found. -/
def Pc.worker : Pc → Option (Fin nthread)
  | .lock i | .testTail i | .testHead i | .wait _ i | .blocked _ i | .woken _ i | .notFound i | .relock i | .execute i _
  | .turn i | .rdlock i | .search i _ | .rdunlock i _ | .removeLock i _ | .removeEnds i _ | .removeLinks i _ _
  | .removeUnlock i => some i
  | _ => none

/-- A node that has not been linked yet, and the index of the worker it is for. -/
def Pc.fresh : Pc → Option (Nat × Fin nthread)
  | .mutex _ jp i | .wrlock _ jp i | .link _ jp i => some (jp, i)
  | _ => none

/-- What `q_head` and `q_tail` are while a thread at this place has `q_lock` for writing. -/
def Pc.Words (nodes : List Nat) (qHead qTail : Option Nat) : Pc → Prop
  | .finish false jp _ => ∃ old, nodes = old ++ [jp] ∧ qHead = nodes.head? ∧ qTail = old.getLast?
  | .finish true jp _ => ∃ old, nodes = jp :: old ∧ qHead = old.head? ∧ qTail = nodes.getLast?
  | .removeLinks _ jp .head =>
    ∃ after, nodes = jp :: after ∧ qHead = after.head? ∧ qTail = nodes.getLast?
  | .removeLinks _ jp .tail =>
    ∃ before, nodes = before ++ [jp] ∧ before ≠ [] ∧ qHead = nodes.head? ∧ qTail = before.getLast?
  | .removeLinks _ jp .middle =>
    (∃ before after, nodes = before ++ jp :: after ∧ before ≠ [] ∧ after ≠ []) ∧
      qHead = nodes.head? ∧ qTail = nodes.getLast?
  | _ => qHead = nodes.head? ∧ qTail = nodes.getLast?

def State.Words (s : State τ) (nodes : List Nat) : Prop :=
  match s.writer with
  | none => s.qHead = nodes.head? ∧ s.qTail = nodes.getLast?
  | some t => (s.pc t).Words nodes s.qHead s.qTail

variable [DecidableEq τ]

/-- The nodes with a job for the thread. -/
def mine (heap : Heap (Job τ)) (t : τ) (nodes : List Nat) : List Nat :=
  nodes.filter fun a => (heap a).any fun node => node.val.jId = t

/-- What a thread knows about the queue from what it has read. -/
def Pc.Regs (qThread : Fin nthread → τ) (s : State τ) (nodes : List Nat) (t : τ) : Pc → Prop
  | .fault => False
  | .finish _ jp i => ∃ node, s.heap jp = some node ∧ index qThread node.val.jId = some i
  | .search _ jp =>
    ∃ before after, nodes = before ++ after ∧ jp = after.head? ∧ mine s.heap t before = []
  | .rdunlock _ none | .notFound _ | .wait false _ => mine s.heap t nodes = []
  | .rdunlock _ (some jp) | .execute _ jp | .removeLock _ jp | .removeEnds _ jp | .removeLinks _ jp _ =>
    (mine s.heap t nodes).head? = some jp
  | _ => True

structure Holds (qThread : Fin nthread → τ) (s : State τ) (nodes : List Nat) (t : τ)
    (pc : Pc) : Prop where
  mutex : ∀ i, pc.held.mutex = some i → s.qMutex i = some t
  writer : s.writer = some t ↔ pc.held.writes = true
  reader : pc.held.reads = true → t ∈ s.readers
  worker : ∀ i, pc.worker = some i → index qThread t = some i
  fresh : ∀ jp i, pc.fresh = some (jp, i) →
    jp ∉ nodes ∧ ∃ node, s.heap jp = some node ∧ index qThread node.val.jId = some i
  regs : pc.Regs qThread s nodes t

structure State.Inv (qThread : Fin nthread → τ) (s : State τ) (nodes : List Nat) : Prop where
  thread : ∀ t, Holds qThread s nodes t (s.pc t)
  excl : s.writer ≠ none → s.readers = []
  list : DoublyLinked s.heap nodes
  words : s.Words nodes
  apart : ∀ t u jp i j, (s.pc t).fresh = some (jp, i) → (s.pc u).fresh = some (jp, j) → t = u

variable {qThread : Fin nthread → τ} {s s' m : State τ} {nodes nodes' before after : List Nat}
    {t u : τ} {pc old : Pc}
  {i j : Fin nthread} {jp a : Nat} {heap heap' : Heap (Job τ)} {job : Job τ}

/-- What the thread that is at a place has. -/
theorem State.Inv.own (inv : s.Inv qThread nodes) (at_ : s.pc t = pc) :
    Holds qThread s nodes t pc := by
  rw [← at_]
  exact inv.thread t

theorem index_eq (found : index qThread t = some i) : qThread i = t := by
  simpa using List.find?_some found

/-! ## The jobs of one worker -/

theorem mem_mine :
    a ∈ mine heap t nodes ↔ a ∈ nodes ∧ ∃ node, heap a = some node ∧ node.val.jId = t := by
  simp [mine, Option.any_eq_true]

theorem mine_append : mine heap t (before ++ after) = mine heap t before ++ mine heap t after := by
  simp [mine]

theorem mine_cons (here : (heap a).map Node.val = some job) :
    mine heap t (a :: nodes) = if job.jId = t then a :: mine heap t nodes else mine heap t
      nodes := by
  obtain ⟨node, at_, rfl⟩ := Option.map_eq_some_iff.mp here
  by_cases same : node.val.jId = t
  · simp [mine, at_, same]
  · simp [mine, at_, same]

/-- Only the values of the nodes in the list matter. -/
theorem mine_congr (same : ∀ a ∈ nodes, (heap' a).map Node.val = (heap a).map Node.val) :
    mine heap' t nodes = mine heap t nodes := by
  apply List.filter_congr
  intro a member
  have value := same a member
  cases before : heap a with
  | none =>
    have gone : heap' a = none := by simpa [before] using value
    rw [gone]
  | some node =>
    obtain ⟨node', after, vals⟩ : ∃ node', heap' a = some node' ∧ node'.val = node.val := by
      simpa [before] using value
    rw [after, Option.any_some, Option.any_some, vals]

/-! ## What the other threads rely on -/

/-- What a step of another thread leaves alone. -/
structure Rely (s : State τ) (nodes : List Nat) (s' : State τ) (nodes' : List Nat)
    (u : τ) : Prop where
  pc : s'.pc u = s.pc u
  mutex : ∀ i, s.qMutex i = some u → s'.qMutex i = some u
  writer : s'.writer = some u ↔ s.writer = some u
  reader : u ∈ s.readers → u ∈ s'.readers
  fresh : ∀ jp i, (s.pc u).fresh = some (jp, i) → jp ∉ nodes → s'.heap jp = s.heap jp ∧ jp ∉ nodes'
  list : (s.pc u).held.reads = true ∨ (s.pc u).held.writes = true → nodes' = nodes ∧
    ∀ a, a ∈ nodes → s'.heap a = s.heap a
  mine : ∀ i, (s.pc u).worker = some i → (s.pc u).held.mutex = some i →
    mine s'.heap u nodes' = mine s.heap u nodes

/-- A step on the locks only. -/
theorem Rely.of_locks (pc : s'.pc u = s.pc u) (heap : s'.heap = s.heap)
    (mutex : ∀ i, s.qMutex i = some u → s'.qMutex i = some u)
    (writer : s'.writer = some u ↔ s.writer = some u) (reader : u ∈ s.readers → u ∈ s'.readers) :
    Rely s nodes s' nodes u := by
  refine ⟨pc, mutex, writer, reader, fun jp i _ outside => ⟨?_, outside⟩,
    fun _ => ⟨rfl, fun a _ => ?_⟩, fun i _ _ => ?_⟩
  all_goals rw [heap]

theorem Rely.regs (rely : Rely s nodes s' nodes' u) (words : s.Words nodes)
    (holds : Holds qThread s nodes u (s.pc u)) :
    (s.pc u).Regs qThread s' nodes' u := by
  have regs := holds.regs
  have list := rely.list
  have same := rely.mine
  have writing := holds.writer
  cases at_ : s.pc u
  all_goals
    rw [at_] at regs list same writing
  case fault => exact regs
  case finish front jp i =>
    obtain ⟨node, here, target⟩ := regs
    refine ⟨node, ?_, target⟩
    -- the node is part of the list, and the list is the writer's
    have member : jp ∈ nodes := by
      have locked : s.writer = some u := writing.mpr rfl
      simp only [State.Words, locked, at_] at words
      cases front with
      | false =>
        obtain ⟨old, rfl, _⟩ := words
        simp
      | true =>
        obtain ⟨old, rfl, _⟩ := words
        simp
    rw [(list (.inr rfl)).2 jp member, here]
  case search i jp =>
    obtain ⟨before, after, split, first, none⟩ := regs
    obtain ⟨rfl, kept⟩ := list (.inl rfl)
    refine ⟨before, after, split, first, ?_⟩
    rw [mine_congr fun a member => by rw [kept a (by simp [split, member])], none]
  case rdunlock i jp =>
    cases jp with
    | none =>
      have unchanged := same i rfl rfl
      exact unchanged.trans regs
    | some jp =>
      have unchanged := same i rfl rfl
      simpa [Pc.Regs, unchanged] using regs
  case notFound i => exact (same i rfl rfl).trans regs
  case wait second i =>
    cases second with
    | false => exact (same i rfl rfl).trans regs
    | true => trivial
  case execute i jp =>
    have unchanged := same i rfl rfl
    simpa [Pc.Regs, unchanged] using regs
  case removeLock i jp =>
    have unchanged := same i rfl rfl
    simpa [Pc.Regs, unchanged] using regs
  case removeEnds i jp =>
    have unchanged := same i rfl rfl
    simpa [Pc.Regs, unchanged] using regs
  case removeLinks i jp ends =>
    have unchanged := same i rfl rfl
    simpa [Pc.Regs, unchanged] using regs
  all_goals trivial

theorem Rely.holds (rely : Rely s nodes s' nodes' u) (words : s.Words nodes)
    (holds : Holds qThread s nodes u (s.pc u)) :
    Holds qThread s' nodes' u (s'.pc u) := by
  rw [rely.pc]
  refine ⟨fun i locked => rely.mutex i (holds.mutex i locked), ?_,
    fun reads => rely.reader (holds.reader reads),
    holds.worker, fun jp i fresh => ?_, rely.regs words holds⟩
  · rw [rely.writer]
    exact holds.writer
  · obtain ⟨outside, node, here, target⟩ := holds.fresh jp i fresh
    obtain ⟨same, outside'⟩ := rely.fresh jp i fresh outside
    exact ⟨outside', node, same.trans here, target⟩

/-! ## The list operations -/

omit [DecidableEq τ] in
/-- Nodes outside the list keep all they have. -/
theorem adjust_outside {p : Option Nat} {change : Node (Job τ) → Node (Job τ)}
    (writes : heap.adjust p change = some heap')
    (inside : ∀ b ∈ p, b ∈ nodes) (outside : a ∉ nodes) : heap' a = heap a :=
  Heap.adjust_other writes fun there => outside (inside a there)

omit [DecidableEq τ] in
theorem jobAppend_spec {node : Node (Job τ)} (list : DoublyLinked heap nodes) (outside : jp ∉ nodes)
    (here : heap jp = some node) :
    ∃ heap', jobAppend heap nodes.head? nodes.getLast? jp = some (heap', (nodes ++ [jp]).head?) ∧
      DoublyLinked heap' (nodes ++ [jp]) ∧ heap.SameValues heap' ∧ ∀ a, a ∉ nodes ++ [jp] →
        heap' a = heap a := by
  -- first the links of the new node, which is not part of the list yet
  have set : heap.adjust (some jp)
      (fun node => { node with next := none, prev := nodes.getLast? }) =
      some (Function.update heap jp (some ⟨none, nodes.getLast?, node.val⟩)) := by
        simp [Heap.adjust, here]
  have prepared : DoublyLinked (Function.update heap jp (some ⟨none, nodes.getLast?, node.val⟩))
      nodes := by
    refine list.congr fun a member => ?_
    have other : a ≠ jp := fun same => outside (same ▸ member)
    simp [other]
  have values : heap.SameValues _ := Heap.adjust_sameValues (by simp) set
  obtain ⟨heap', writes, linked, same⟩ := prepared.pushBack outside (Function.update_self jp _ heap)
  refine ⟨heap', ?_, linked, values.trans same, fun a away => ?_⟩
  · simp only [jobAppend, store, set, Option.bind_eq_bind, Option.bind_some]
    cases last : nodes.getLast? with
    | none =>
      obtain rfl := List.getLast?_eq_none_iff.mp last
      simpa [Heap.adjust] using writes
    | some b =>
      have front : (nodes ++ [jp]).head? = nodes.head? := by
        have more : nodes ≠ [] := by
          rintro rfl
          simp at last
        rw [List.head?_append_of_ne_nil _ more]
      rw [last] at writes
      simp [writes, front]
  · simp only [List.mem_append, List.mem_singleton, not_or] at away
    rw [adjust_outside writes (fun b last => List.mem_of_getLast? last) away.1]
    simp [away.2]

omit [DecidableEq τ] in
theorem jobInsert_spec {node : Node (Job τ)} (list : DoublyLinked heap nodes) (outside : jp ∉ nodes)
    (here : heap jp = some node) :
    ∃ heap', jobInsert heap nodes.head? nodes.getLast? jp = some (heap', (jp :: nodes).getLast?) ∧
      DoublyLinked heap' (jp :: nodes) ∧ heap.SameValues heap' ∧ ∀ a, a ∉ jp :: nodes →
        heap' a = heap a := by
  have set : heap.adjust (some jp) (fun node => { node with next := nodes.head?, prev := none }) =
      some (Function.update heap jp (some ⟨nodes.head?, none, node.val⟩)) := by
        simp [Heap.adjust, here]
  have prepared : DoublyLinked (Function.update heap jp (some ⟨nodes.head?, none, node.val⟩))
      nodes := by
    refine list.congr fun a member => ?_
    have other : a ≠ jp := fun same => outside (same ▸ member)
    simp [other]
  have values : heap.SameValues _ := Heap.adjust_sameValues (by simp) set
  obtain ⟨heap', writes, linked, same⟩ := prepared.push outside (Function.update_self jp _ heap)
  refine ⟨heap', ?_, linked, values.trans same, fun a away => ?_⟩
  · simp only [jobInsert, store, set, Option.bind_eq_bind, Option.bind_some]
    cases nodes with
    | nil => simpa [Heap.adjust] using writes
    | cons b nodes =>
      rw [List.head?_cons] at writes
      simp [writes, List.getLast?_cons]
  · simp only [List.mem_cons, not_or] at away
    rw [adjust_outside writes (fun b first => List.mem_of_mem_head? first) away.2]
    simp [away.1]

omit [DecidableEq τ] in
theorem removeEnds_spec (list : DoublyLinked heap nodes) (member : jp ∈ nodes) (i : Fin nthread) :
    ∃ ends qHead qTail, removeEnds heap nodes.head? nodes.getLast? jp = some (ends, qHead, qTail) ∧
      (Pc.removeLinks i jp ends).Words nodes qHead qTail := by
  obtain ⟨before, after, rfl⟩ := List.append_of_mem member
  obtain ⟨val, here⟩ := list.linked before jp after rfl
  cases before with
  | nil => exact ⟨.head, after.head?, _, by simp [removeEnds, here], after, rfl, rfl, rfl⟩
  | cons b before =>
    have other : b ≠ jp := by
      rintro rfl
      simpa using (List.nodup_cons.mp list.nodup).1
    cases after with
    | nil =>
      refine ⟨.tail, _, (b :: before).getLast?, ?_, b :: before, rfl, by simp, rfl, rfl⟩
      have last : (b :: before ++ [jp]).getLast? = some jp := by rw [List.getLast?_append]; rfl
      rw [removeEnds, if_neg (by simpa using other), if_pos last, here]
      rfl
    | cons c after =>
      have last : (b :: before ++ jp :: c :: after).getLast? ≠ some jp := by
        intro same
        have ends : (b :: before ++ jp :: c :: after).getLast? = (c :: after).getLast? := by
          simp [List.getLast?_append, List.getLast?_cons]
        rw [ends] at same
        have tail := (List.nodup_append.mp list.nodup).2.1
        exact (List.nodup_cons.mp tail).1 (List.mem_of_getLast? same)
      refine ⟨.middle, _, _, ?_, ⟨b :: before, c :: after, rfl, by simp, by simp⟩, rfl, rfl⟩
      rw [removeEnds, if_neg (by simpa using other), if_neg last]

omit [DecidableEq τ] in
/-- The two writes that take a node out, and its `free`. -/
theorem unlink_free (list : DoublyLinked heap (before ++ jp :: after)) :
    ∃ middle heap', (heap.adjust after.head? fun node => { node with prev := before.getLast? }) =
      some middle ∧
      (middle.adjust before.getLast? fun node => { node with next := after.head? }) = some heap' ∧
      DoublyLinked (Function.update heap' jp none) (before ++ after) ∧
      (∀ a, a ≠ jp → (Function.update heap' jp none a).map Node.val = (heap a).map Node.val) ∧
      ∀ a, a ∉ before ++ jp :: after → Function.update heap' jp none a = heap a := by
  obtain ⟨middle, heap', first, _, second, linked, values⟩ := list.unlink
  have gone : jp ∉ before ++ after := (List.nodup_middle.mp list.nodup).notMem
  refine ⟨middle, heap', first, second, linked.congr fun a member => ?_, fun a other => ?_,
    fun a away => ?_⟩
  · have other : a ≠ jp := fun same => gone (same ▸ member)
    simp [other]
  · rw [Function.update_of_ne other]
    exact values a
  · have other : a ≠ jp := fun same => away (by simp [same])
    rw [Function.update_of_ne other, adjust_outside second (fun b last => ?_) away,
      adjust_outside first (fun b head => ?_) away]
    · exact List.mem_append_right _ (List.mem_cons_of_mem _ (List.mem_of_mem_head? head))
    · exact List.mem_append_left _ (List.mem_of_getLast? last)

omit [DecidableEq τ] in
theorem removeLinks_spec {qHead qTail : Option Nat} {ends : Ends} (list : DoublyLinked heap nodes)
    (words : (Pc.removeLinks i jp ends).Words nodes qHead qTail) :
    ∃ before after heap' qTail', nodes = before ++ jp :: after ∧
      removeLinks heap qTail jp ends = some (heap', qTail') ∧
      DoublyLinked heap' (before ++ after) ∧ qHead = (before ++ after).head? ∧
        qTail' = (before ++ after).getLast? ∧
      (∀ a, a ≠ jp → (heap' a).map Node.val = (heap a).map Node.val) ∧ ∀ a, a ∉ nodes →
        heap' a = heap a := by
  cases ends with
  | head =>
    obtain ⟨after, rfl, head, tail⟩ := words
    have list' : DoublyLinked heap ([] ++ jp :: after) := list
    obtain ⟨val, here⟩ := list'.linked [] jp after rfl
    obtain ⟨middle, heap', first, second, linked, values, away⟩ := unlink_free list'
    obtain rfl : middle = heap' := by simpa [Heap.adjust] using second
    cases after with
    | nil =>
      obtain rfl : heap = middle := by simpa [Heap.adjust] using first
      exact ⟨[], [], _, none,
        rfl, by simp [removeLinks, here, tail], linked, head, rfl, values, away⟩
    | cons c after =>
      have last : (jp :: c :: after).getLast? ≠ some jp := by
        intro same
        have ends : (jp :: c :: after).getLast? = (c :: after).getLast? := by
          simp [List.getLast?_cons]
        rw [ends] at same
        exact (List.nodup_cons.mp list.nodup).1 (List.mem_of_getLast? same)
      refine ⟨[], c :: after, _, qTail, rfl, ?_, linked, head, ?_, values, away⟩
      · rw [← tail] at last
        rw [List.head?_cons] at first
        simp only [removeLinks, here, if_neg last, Option.bind_eq_bind, Option.bind_some,
          List.head?_cons, store, first]
      · rw [tail]
        simp [List.getLast?_cons]
  | tail =>
    obtain ⟨before, rfl, more, head, tail⟩ := words
    obtain ⟨val, here⟩ := list.linked before jp [] rfl
    obtain ⟨middle, heap', first, second, linked, values, away⟩ := unlink_free list
    obtain rfl : heap = middle := by simpa [Heap.adjust] using first
    refine ⟨before, [], _, qTail, rfl, ?_, linked, ?_, by simpa using tail, values, away⟩
    · obtain ⟨front, last, rfl⟩ := (List.eq_nil_or_concat' before).resolve_left more
      have ends : (front ++ [last]).getLast? = some last := by simp
      rw [ends] at second here
      simp only [removeLinks, here, Option.bind_eq_bind, Option.bind_some, store, second]
    · rw [head, List.head?_append_of_ne_nil _ more, List.append_nil]
  | middle =>
    obtain ⟨⟨before, after, rfl, front, back⟩, head, tail⟩ := words
    obtain ⟨val, here⟩ := list.linked before jp after rfl
    obtain ⟨middle, heap', first, second, linked, values, away⟩ := unlink_free list
    obtain ⟨p, last⟩ : ∃ p, before.getLast? = some p :=
      Option.isSome_iff_exists.mp (by simpa using front)
    obtain ⟨n, next⟩ : ∃ n, after.head? = some n :=
      Option.isSome_iff_exists.mp (by simpa using back)
    refine ⟨before, after, _, qTail, rfl, ?_, linked, ?_, ?_, values, away⟩
    · have distinct := List.nodup_append.mp list.nodup
      have apart : ∀ x ∈ before.getLast?, x ∉ after.head? := fun x last next =>
        distinct.2.2 x (List.mem_of_getLast? last) x
          (List.mem_cons_of_mem jp (List.mem_of_mem_head? next)) rfl
      have outside : jp ∉ before.getLast? := fun last =>
        distinct.2.2 jp (List.mem_of_getLast? last) jp List.mem_cons_self rfl
      -- the two neighbours are different nodes, so the order of the two writes does not matter
      have order : ((heap.adjust before.getLast? fun node => { node with next := after.head? }).bind
          fun heap =>
          heap.adjust after.head? fun node => { node with prev := before.getLast? }) =
            some heap' := by
        rw [Heap.adjust_comm apart, first]
        exact second
      obtain ⟨early, one, two⟩ := Option.bind_eq_some_iff.mp order
      have kept : early jp = heap jp := Heap.adjust_other one outside
      rw [here] at kept
      rw [last, next] at one two here kept
      simp only [removeLinks, here, Option.bind_eq_bind, Option.bind_some, store, one, kept, two]
    · rw [head, List.head?_append_of_ne_nil _ front, List.head?_append_of_ne_nil _ front]
    · obtain ⟨c, rest, rfl⟩ := List.exists_cons_of_ne_nil back
      rw [tail]
      simp [List.getLast?_append, List.getLast?_cons]

end Apue.Threads.Queue
