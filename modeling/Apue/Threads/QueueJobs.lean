import Apue.Threads.QueueSteps

/-! # What becomes of the jobs

An accepted job is known by its number, its place among the accepted ones.  The jobs of a worker are
in one line: what it is done with, in the order in which it was executed, and then what is on the
list for it.  `job_append` adds at the end of the line, `job_insert` in the middle, and a worker
that executes its first job only moves the border.
-/

namespace Apue.Threads.Queue

open Apue.Base

variable {τ : Type} [DecidableEq τ]

/-- The node `job_find` has returned, up to its `free`. -/
def Pc.found : Pc → Option Nat
  | .rdunlock _ jp => jp
  | .execute _ jp | .removeLock _ jp | .removeEnds _ jp | .removeLinks _ jp _ => some jp
  | _ => none

/-- The node whose job has been executed and that is still on the list. -/
def Pc.removing (pc : Pc) : Option Nat := if pc.executing then pc.found else none

/-- The numbers of the accepted jobs that pass a test. -/
def serials (accepted : List (Bool × Job τ)) (test : Bool × Job τ → Bool) : List Nat :=
  (List.range accepted.length).filter fun k => accepted[k]?.any test

namespace State

def acceptedFor (s : State τ) (t : τ) : List Nat := serials s.accepted fun x => x.2.jId = t

/-- The job came with `job_append`. -/
def appended (s : State τ) (k : Nat) : Bool := s.accepted[k]?.any fun x => !x.1

/-- What the thread has executed, in this order. -/
def executedBy (s : State τ) (t : τ) : List Nat := (s.executed.filter fun x => x.1 = t).map Prod.snd

/-- The jobs of a thread: what it is done with, and what is on the list. -/
def line (s : State τ) (nodes : List Nat) (past : τ → List Nat) (t : τ) : List Nat :=
  past t ++ (mine s.heap t nodes).map s.serial

structure Account (s : State τ) (nodes : List Nat) (past : τ → List Nat) : Prop where
  carries : ∀ a ∈ nodes, (s.heap a).map Node.val = s.accepted[s.serial a]?.map Prod.snd
  executed : ∀ t, s.executedBy t =
    past t ++ if (s.pc t).executing then ((mine s.heap t nodes).head?.map s.serial).toList else []
  all : ∀ t, (s.line nodes past t).Perm (s.acceptedFor t)
  order : ∀ t, (s.line nodes past t).filter s.appended = (s.acceptedFor t).filter s.appended

end State

variable {qThread : Fin nthread → τ} {s s' : State τ} {nodes nodes' : List Nat}
    {past : τ → List Nat} {t u : τ} {jp a k : Nat}
  {accepted : List (Bool × Job τ)} {test : Bool × Job τ → Bool} {x : Bool × Job τ}

/-! ## Numbers -/

omit [DecidableEq τ] in
theorem mem_serials : k ∈ serials accepted test ↔ ∃ x, accepted[k]? = some x ∧ test x = true := by
  simp only [serials, List.mem_filter, List.mem_range, Option.any_eq_true]
  constructor
  · exact fun found => found.2
  · rintro ⟨x, there, passes⟩
    exact ⟨(List.getElem?_eq_some_iff.mp there).1, x, there, passes⟩

omit [DecidableEq τ] in
theorem serials_nodup : (serials accepted test).Nodup := List.nodup_range.filter _

omit [DecidableEq τ] in
theorem serials_append : serials (accepted ++ [x]) test =
    serials accepted test ++ if test x = true then [accepted.length] else [] := by
  have earlier : (List.range accepted.length).filter (fun k => (accepted ++ [x])[k]?.any test) =
      serials accepted test := by
    refine List.filter_congr fun k inside => ?_
    rw [List.getElem?_append_left (List.mem_range.mp inside)]
  have last : (accepted ++ [x])[accepted.length]?.any test = test x := by simp
  unfold serials at earlier ⊢
  rw [List.length_append, List.length_singleton, List.range_succ, List.filter_append, earlier,
    List.filter_singleton, last,
    Bool.cond_eq_ite]

/-! ## What a worker has found -/

omit [DecidableEq τ] in
theorem Pc.executing_found {pc : Pc} (executing : pc.executing = true) :
    ∃ jp, pc.found = some jp := by
  cases pc <;> simp_all [Pc.executing, found]

theorem State.Inv.first_of_found (inv : s.Inv qThread nodes) (found : (s.pc t).found = some jp) :
    (mine s.heap t nodes).head? = some jp := by
  have regs := (inv.thread t).regs
  cases at_ : s.pc t
  all_goals
    rw [at_] at found regs
    simp only [Pc.found, Option.some.injEq, reduceCtorEq] at found
  all_goals
    obtain rfl := found
    exact regs

namespace State.Account

theorem start : (State.start : State τ).Account [] fun _ => [] := by
  exact ⟨by simp, fun t => rfl, fun t => .refl _, fun t => rfl⟩

theorem mem_line (account : s.Account nodes past) : k ∈ s.line nodes past t ↔ k ∈ s.acceptedFor t :=
  (account.all t).mem_iff

theorem line_nodup (account : s.Account nodes past) (t : τ) : (s.line nodes past t).Nodup :=
  (account.all t).nodup_iff.mpr serials_nodup

theorem executed_in_line (account : s.Account nodes past) (t : τ) :
    s.executedBy t <+: s.line nodes past t := by
  rw [account.executed t, line]
  apply List.prefix_append_right_inj _ |>.mpr
  split
  · cases mine s.heap t nodes with
    | nil => simp
    | cons a rest => simp
  · exact List.nil_prefix

theorem executed_nodup (account : s.Account nodes past) (t : τ) : (s.executedBy t).Nodup :=
  (account.line_nodup t).sublist (account.executed_in_line t).sublist

/-- Nobody executes what was not accepted for it. -/
theorem accepted_of_executed (account : s.Account nodes past) (there : k ∈ s.executedBy t) :
    ∃ front job, s.accepted[k]? = some (front, job) ∧ job.jId = t := by
  obtain ⟨⟨front, job⟩, found, self⟩ :=
    mem_serials.mp (account.mem_line.mp ((account.executed_in_line t).subset there))
  exact ⟨front, job, found, of_decide_eq_true self⟩

/-- The number of a node leads to its job. -/
theorem job_of_node (account : s.Account nodes past) (list : DoublyLinked s.heap nodes)
    (member : a ∈ nodes) :
    ∃ front job, s.accepted[s.serial a]? = some (front, job) ∧ (s.heap a).map Node.val = some job ∧
      a ∈ mine s.heap job.jId nodes := by
  obtain ⟨node, here⟩ := list.allocated member
  have carried := account.carries a member
  rw [here, Option.map_some, eq_comm, Option.map_eq_some_iff] at carried
  obtain ⟨⟨front, job⟩, there, rfl⟩ := carried
  exact ⟨front, node.val, there, by rw [here]; rfl, mem_mine.mpr ⟨member, node, here, rfl⟩⟩

/-! ## Steps -/

/-- A step that changes the line of no thread. -/
theorem quiet (account : s.Account nodes past)
    (ghosts : s'.accepted = s.accepted ∧ s'.serial = s.serial)
    (members : ∀ a ∈ nodes', a ∈ nodes)
    (values : ∀ a ∈ nodes', (s'.heap a).map Node.val = (s.heap a).map Node.val)
    {past' : τ → List Nat} (same : ∀ t, s'.line nodes' past' t = s.line nodes past t)
    (executed : ∀ t, s'.executedBy t =
      past' t ++ if (s'.pc t).executing then ((mine s'.heap t nodes').head?.map
        s'.serial).toList else []) :
    s'.Account nodes' past' := by
  obtain ⟨accepted, serial⟩ := ghosts
  refine ⟨fun a member => ?_, executed, fun t => ?_, fun t => ?_⟩
  · rw [values a member, accepted, serial, account.carries a (members a member)]
  · rw [same t, acceptedFor, accepted]
    exact account.all t
  · have test : s'.appended = s.appended := by
      funext k
      rw [appended, appended, accepted]
    rw [same t, test, acceptedFor, accepted]
    exact account.order t

/-- The nodes after a step are the ones the threads see. -/
theorem members (list' : DoublyLinked s'.heap nodes')
    (visible : ∀ u, ∀ a ∈ mine s'.heap u nodes', a ∈ nodes) :
    ∀ a ∈ nodes', a ∈ nodes := by
  intro a member
  obtain ⟨node, here⟩ := list'.allocated member
  exact visible node.val.jId a (mem_mine.mpr ⟨member, node, here, rfl⟩)

theorem members_of_same (list' : DoublyLinked s'.heap nodes')
    (same : ∀ u, mine s'.heap u nodes' = mine s.heap u nodes) :
    ∀ a ∈ nodes', a ∈ nodes := by
  refine members list' fun u a there => ?_
  rw [same u] at there
  exact (mem_mine.mp there).1

theorem linked {front : Bool} {job : Job τ} (account : s.Account nodes past)
    (list : DoublyLinked s.heap nodes)
    (list' : DoublyLinked s'.heap nodes')
    (values : ∀ a ∈ nodes', (s'.heap a).map Node.val = (s.heap a).map Node.val)
    (outside : jp ∉ nodes)
    (value : (s.heap jp).map Node.val = some job)
    (mine : ∀ u, mine s'.heap u nodes' = if job.jId = u then
      if front then jp :: mine s.heap u nodes else mine s.heap u nodes ++
        [jp] else mine s.heap u nodes)
    (ghosts : s'.accepted = s.accepted ++ [(front, job)] ∧
    s'.serial = Function.update s.serial jp s.accepted.length ∧
      s'.executed = s.executed)
    (executing : ∀ u, (s'.pc u).executing = (s.pc u).executing)
    (idle : (s.pc job.jId).executing = false) :
    s'.Account nodes' past := by
  obtain ⟨accepted, serial, executed⟩ := ghosts
  have fresh : s'.serial jp = s.accepted.length := by rw [serial, Function.update_self]
  have kept {a : Nat} (member : a ∈ nodes) : s'.serial a = s.serial a := by
    have other : a ≠ jp := fun same => outside (same ▸ member)
    rw [serial, Function.update_of_ne other]
  have numbers (u : τ) :
      (Queue.mine s.heap u nodes).map s'.serial = (Queue.mine s.heap u nodes).map s.serial :=
    List.map_congr_left fun a there => kept (mem_mine.mp there).1
  have early {u : τ} {k : Nat} (there : k ∈ s.acceptedFor u) : s'.appended k = s.appended k := by
    obtain ⟨x, found, _⟩ := mem_serials.mp there
    rw [appended, appended, accepted,
      List.getElem?_append_left (List.getElem?_eq_some_iff.mp found).1]
  have lineTests (u : τ) :
      (s.line nodes past u).filter s'.appended = (s.line nodes past u).filter s.appended :=
    List.filter_congr fun k there => early (account.mem_line.mp there)
  have acceptedTests (u : τ) :
      (s.acceptedFor u).filter s'.appended = (s.acceptedFor u).filter s.appended :=
    List.filter_congr fun k there => early there
  have own : s'.appended s.accepted.length = !front := by
    simp [appended, accepted]
  have grown (u : τ) : s'.acceptedFor u =
      s.acceptedFor u ++ if job.jId = u then [s.accepted.length] else [] := by
    simp only [acceptedFor, accepted, serials_append, decide_eq_true_eq]
  have others {u : τ} (other : job.jId ≠ u) : s'.line nodes' past u = s.line nodes past u := by
    rw [line, line, mine u, if_neg other, numbers u]
  -- the new number stands at the border for `job_insert` and at the end for `job_append`
  obtain ⟨before, after, split, split', last⟩ :
      ∃ before after, s.line nodes past job.jId = before ++ after ∧
      s'.line nodes' past job.jId = before ++ s.accepted.length :: after ∧
        (front = false → after = []) := by
    cases front with
    | false =>
      refine ⟨s.line nodes past job.jId, [], by simp, ?_, fun _ => rfl⟩
      simp [line, mine, numbers, fresh]
    | true =>
      refine ⟨past job.jId, _, rfl, ?_, by simp⟩
      simp [line, mine, numbers, fresh]
  refine ⟨fun a member => ?_, fun u => ?_, fun u => ?_, fun u => ?_⟩
  · rw [values a member]
    by_cases new : a = jp
    · rw [new, value, fresh, accepted]
      simp
    · obtain ⟨node, here⟩ := list'.allocated member
      have there : a ∈ Queue.mine s'.heap node.val.jId nodes' :=
        mem_mine.mpr ⟨member, node, here, rfl⟩
      have old : a ∈ Queue.mine s.heap node.val.jId nodes := by
        rw [mine] at there
        split at there
        · split at there
          all_goals simpa [new] using there
        · exact there
      have member' := (mem_mine.mp old).1
      obtain ⟨_, _, found, _⟩ := account.job_of_node list member'
      rw [kept member', accepted, account.carries a member',
        List.getElem?_append_left (List.getElem?_eq_some_iff.mp found).1]
  · have same : s'.executedBy u = s.executedBy u := by rw [executedBy, executedBy, executed]
    rw [same, executing u, account.executed u]
    by_cases self : job.jId = u
    · rw [← self, idle]
      rfl
    · have first := congrArg List.head? (numbers u)
      rw [List.head?_map, List.head?_map] at first
      rw [mine u, if_neg self, first]
  · rw [grown u]
    by_cases self : job.jId = u
    · obtain rfl := self
      have all := account.all job.jId
      rw [split] at all
      rw [split', if_pos rfl]
      exact List.perm_middle.trans ((all.cons _).trans (List.perm_append_singleton _ _).symm)
    · rw [others self, if_neg self, List.append_nil]
      exact account.all u
  · rw [grown u]
    by_cases self : job.jId = u
    · obtain rfl := self
      have order := account.order job.jId
      rw [← lineTests, split, ← acceptedTests, List.filter_append] at order
      rw [split', if_pos rfl, List.filter_append, List.filter_append, ← order, List.filter_cons,
        List.filter_singleton, own]
      cases front with
      | false => simp [last rfl]
      | true => simp
    · rw [others self, if_neg self, List.append_nil, lineTests, acceptedTests]
      exact account.order u

/-- Every step accounts for the jobs. -/
theorem step (account : s.Account nodes past) (inv : s.Inv qThread nodes)
    (inv' : s'.Inv qThread nodes')
    (values : ∀ a ∈ nodes', (s'.heap a).map Node.val = (s.heap a).map Node.val)
    (effect : Effect qThread s nodes s' nodes' t) : ∃ past', s'.Account nodes' past' := by
  cases effect with
  | quiet mine ghosts executing =>
    obtain ⟨accepted, serial, executed⟩ := ghosts
    refine ⟨past, account.quiet ⟨accepted, serial⟩ (members_of_same inv'.list mine) values
      (fun u => ?_) fun u => ?_⟩
    · rw [line, line, mine u, serial]
    · rw [executing u, mine u, serial, ← account.executed u, executedBy, executedBy, executed]
  | linked front jp job i target owes outside value mine ghosts executing idle =>
    exact ⟨past, account.linked inv.list inv'.list values outside value mine ghosts executing idle⟩
  | executed jp first mine ghosts executing =>
    obtain ⟨accepted, serial, executed⟩ := ghosts
    obtain ⟨before, after, others⟩ := executing
    refine ⟨past, account.quiet ⟨accepted, serial⟩ (members_of_same inv'.list mine) values
      (fun u => ?_) fun u => ?_⟩
    · rw [line, line, mine u, serial]
    · have earlier := account.executed u
      by_cases self : u = t
      · obtain rfl := self
        rw [before] at earlier
        simp only [Bool.false_eq_true, if_false, List.append_nil] at earlier
        rw [after, mine u, serial, first, ← earlier]
        simp [executedBy, executed]
      · rw [others u self, mine u, serial, ← earlier]
        simp [executedBy, executed, Ne.symm self]
  | removed mine ghosts executing =>
    obtain ⟨accepted, serial, executed⟩ := ghosts
    obtain ⟨before, after, others⟩ := executing
    have same (u : τ) : s'.executedBy u = s.executedBy u := by rw [executedBy, executedBy, executed]
    -- now the thread is done with all it has executed
    refine ⟨Function.update past t (s.executedBy t), account.quiet ⟨accepted, serial⟩
      (members inv'.list fun u a there => ?_) values (fun u => ?_) fun u => ?_⟩
    · rw [mine u] at there
      split at there
      · exact (mem_mine.mp (List.mem_of_mem_tail there)).1
      · exact (mem_mine.mp there).1
    · by_cases self : u = t
      · obtain rfl := self
        have earlier := account.executed u
        rw [before] at earlier
        rw [line, line, mine u, serial, Function.update_self, earlier]
        cases Queue.mine s.heap u nodes with
        | nil => simp
        | cons a rest => simp
      · rw [line, line, mine u, serial, Function.update_of_ne self, if_neg self]
    · by_cases self : u = t
      · obtain rfl := self
        rw [after, same u, Function.update_self]
        simp
      · rw [others u self, mine u, serial, same u, Function.update_of_ne self, if_neg self]
        exact account.executed u

/-! ## Where a job is -/

/-- A node with the number of an accepted job is one of its thread. -/
theorem mine_of_serial {front : Bool} {job : Job τ} (account : s.Account nodes past)
    (list : DoublyLinked s.heap nodes)
    (found : s.accepted[k]? = some (front, job)) (member : a ∈ nodes) (number : s.serial a = k) :
    a ∈ mine s.heap job.jId nodes := by
  obtain ⟨front', job', found', _, there⟩ := account.job_of_node list member
  rw [number, found] at found'
  obtain ⟨-, rfl⟩ : front = front' ∧ job = job' := by simpa using found'
  exact there

/-- Two nodes of a thread have different numbers. -/
theorem serial_inj {b : Nat} (account : s.Account nodes past) (first : a ∈ mine s.heap t nodes)
    (second : b ∈ mine s.heap t nodes) (same : s.serial a = s.serial b) : a = b :=
  List.inj_on_of_nodup_map (List.nodup_append.mp (account.line_nodup t)).2.1 first second same

/-- A job nobody has executed is on the list. -/
theorem queued {front : Bool} {job : Job τ} (account : s.Account nodes past)
    (list : DoublyLinked s.heap nodes)
    (found : s.accepted[k]? = some (front, job)) (not_yet : k ∉ s.executedBy job.jId) :
    (∃! a, a ∈ nodes ∧ s.serial a = k) ∧ ∀ t, k ∉ s.executedBy t := by
  have accepted : k ∈ s.acceptedFor job.jId := mem_serials.mpr ⟨(front, job), found, by simp⟩
  have inLine : k ∈ s.line nodes past job.jId := account.mem_line.mpr accepted
  obtain done | there := List.mem_append.mp inLine
  · rw [account.executed job.jId] at not_yet
    exact absurd (List.mem_append_left _ done) not_yet
  · obtain ⟨a, there, number⟩ := List.mem_map.mp there
    refine ⟨⟨a, ⟨(mem_mine.mp there).1, number⟩, fun b other => ?_⟩, fun t executed => ?_⟩
    · obtain ⟨member, number'⟩ := other
      have there' := account.mine_of_serial list found member number'
      exact account.serial_inj there' there (number'.trans number.symm)
    · obtain ⟨front', job', found', rfl⟩ := account.accepted_of_executed executed
      rw [found] at found'
      obtain ⟨-, rfl⟩ : front = front' ∧ job = job' := by simpa using found'
      exact not_yet executed

/-- A job that has been executed is on the list only while its thread removes it. -/
theorem executed_once {front : Bool} {job : Job τ} (account : s.Account nodes past)
    (inv : s.Inv qThread nodes)
    (found : s.accepted[k]? = some (front, job)) (executed : k ∈ s.executedBy job.jId)
    (member : a ∈ nodes)
    (number : s.serial a = k) : (s.pc job.jId).removing = some a := by
  have there := account.mine_of_serial inv.list found member number
  have distinct := List.nodup_append.mp (account.line_nodup job.jId)
  rw [account.executed job.jId, List.mem_append] at executed
  -- a number is in the line once, so a job the thread is done with is on the list no more
  obtain done | first := executed
  · exact absurd rfl (distinct.2.2 k done k (List.mem_map.mpr ⟨a, there, number⟩))
  · split at first
    · rename_i executing
      simp only [Option.mem_toList, Option.map_eq_some_iff] at first
      obtain ⟨b, first, number'⟩ := first
      obtain rfl := account.serial_inj there (List.mem_of_mem_head? first)
        (number.trans number'.symm)
      obtain ⟨jp, here⟩ := Pc.executing_found executing
      have same := inv.first_of_found here
      rw [first] at same
      rw [Pc.removing, if_pos executing, here, same]
    · simp at first

end State.Account

/-! ## Every reachable state -/

theorem jobs_run_once (actions : List (Action τ)) (s : State τ)
    (runs : execute (State.step qThread) .start actions = some s) :
    (∀ t, s.pc t ≠ .fault) ∧
      ∃ nodes, DoublyLinked s.heap nodes ∧
        (s.writer = none → s.qHead = nodes.head? ∧ s.qTail = nodes.getLast?) ∧
        (∀ a ∈ nodes, (s.heap a).map Node.val = s.accepted[s.serial a]?.map Prod.snd) ∧
        (∀ k front job, s.accepted[k]? = some (front, job) →
          (∃! a, a ∈ nodes ∧ s.serial a = k) ∧ (∀ t, k ∉ s.executedBy t) ∨
            (s.executedBy job.jId).count k = 1 ∧ ∀ a ∈ nodes, s.serial a = k →
              (s.pc job.jId).removing = some a) ∧
        (∀ t, ∀ k ∈ s.executedBy t, ∃ front job, s.accepted[k]? = some (front, job) ∧ job.jId = t) ∧
        (∀ t, (s.executedBy t).filter s.appended <+: (s.acceptedFor t).filter s.appended) ∧
        ∀ t jp, (s.pc t).found = some jp → jp ∈ nodes ∧ ∃ node, s.heap jp = some node ∧
          node.val.jId = t := by
  have start : ∃ nodes past, (State.start : State τ).Inv qThread nodes ∧
      (State.start : State τ).Account nodes past :=
    ⟨[], fun _ => [], State.Inv.start, State.Account.start⟩
  have keeps (s : State τ) (action : Action τ) (s' : State τ) (kept : ∃ nodes past,
      s.Inv qThread nodes ∧ s.Account nodes past)
      (_ : True) (steps : s.step qThread action = some s') :
      ∃ nodes past, s'.Inv qThread nodes ∧ s'.Account nodes past := by
    obtain ⟨nodes, past, inv, account⟩ := kept
    obtain ⟨nodes', inv', values, effect⟩ := inv.step steps
    obtain ⟨past', account'⟩ := account.step inv inv' values effect
    exact ⟨nodes', past', inv', account'⟩
  obtain ⟨nodes, past, inv, account⟩ :=
    (Visits.finish runs).invariant _ (fun _ _ => True) start keeps fun _ _ _ => trivial
  refine ⟨fun t fault => ?_, nodes, inv.list, fun free => ?_, account.carries,
    fun k front job found => ?_,
    fun t k executed => account.accepted_of_executed executed, fun t => ?_,
    fun t jp found => State.Inv.mem_of_first (inv.first_of_found found)⟩
  · have regs := (inv.thread t).regs
    rw [fault] at regs
    exact regs
  · have words := inv.words
    simpa only [State.Words, free] using words
  · by_cases executed : k ∈ s.executedBy job.jId
    · exact .inr ⟨List.count_eq_one_of_mem (account.executed_nodup job.jId) executed,
        fun a member number => account.executed_once inv found executed member number⟩
    · exact .inl (account.queued inv.list found executed)
  · rw [← account.order t]
    exact (account.executed_in_line t).filter _

/-- Worker 0 is removing its first job while another thread's job stands in front of its second
one. -/
def twoOfThree : List (Action (Fin (nthread + 1))) :=
  appends worker0 10 ++ appends worker1 11 ++ appends worker0 12 ++
    .handleJob (workers worker0) :: List.replicate 8 (.run (workers worker0))

theorem jobs_run_once_two : ∃ s, execute (State.step workers) .start twoOfThree = some s ∧
    s.executedBy (workers worker0) = [0] ∧ (∀ t, s.pc t ≠ .fault) ∧
    (s.executedBy (workers worker0)).filter s.appended <+: (s.acceptedFor (workers worker0)).filter
    s.appended := by
  have executed : (execute (State.step workers) .start twoOfThree).any
      (fun s => s.executedBy (workers worker0) = [0]) = true := by
    decide +kernel
  obtain ⟨s, runs, first⟩ := (Option.any_eq_true _ _).mp executed
  obtain ⟨sound, nodes, _, _, _, _, _, order, _⟩ := jobs_run_once twoOfThree s runs
  exact ⟨s, runs, of_decide_eq_true first, sound, order _⟩

end Apue.Threads.Queue
