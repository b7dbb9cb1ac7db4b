import Apue.Threads.QueueSteps

/-! # When a worker of the job queue sleeps

A worker waits at two places.  In front of the first it has found the queue empty and has had its
mutex since, so a job for it can only be linked when it sleeps, and the signal wakes it.  In front
of the second `job_find` has found nothing for it; but then it gives its mutex back, takes it again
and waits without another look.  A job that is linked and signalled in between is missed, and the
worker sleeps although there is work for it.

The worker never misses a job in the runs in which no last outstanding signal for it falls between
its two locks with a job on the queue.
-/

namespace Apue.Threads.Queue

open Apue.Base

variable {τ : Type} [DecidableEq τ]

/-- The `n`th node behind `q_head`. -/
def State.follow (s : State τ) : Nat → Option Nat
  | 0 => s.qHead
  | n + 1 => (s.follow n).bind fun a => (s.heap a).bind Node.next

/-- The queue holds a job for the thread. -/
def State.HasJobFor (s : State τ) (t : τ) : Prop :=
  ∃ n a node, s.follow n = some a ∧ s.heap a = some node ∧ node.val.jId = t

/-- A worker that is blocked, with nobody left to signal it, has nothing to do. -/
def State.NoLostWakeup (s : State τ) : Prop :=
  ∀ t second i, s.pc t = .blocked second i → (∀ x, (s.pc x).owesSignal ≠ some i) → ¬s.HasJobFor t

/-- The worker has given its mutex back after a search in vain and is not waiting yet. -/
def Pc.betweenLocks : Pc → Option (Fin nthread)
  | .relock i | .wait true i => some i
  | _ => none

/-- The last outstanding signal for a worker is sent between its two locks, with a job for it on the
queue. -/
def SignalLost (s : State τ) : Action τ → Prop
  | .run t => ∃ i u, s.pc t = .signal i ∧ (s.pc u).betweenLocks = some i ∧ s.HasJobFor u ∧
      ∀ x, x ≠ t → (s.pc x).owesSignal ≠ some i
  | _ => False

variable {qThread : Fin nthread → τ} {s s' : State τ} {nodes nodes' before after : List Nat}
    {t u : τ} {pc : Pc}
  {i : Fin nthread} {a : Nat}

/-! ## What hangs on `q_head` -/

omit [DecidableEq τ] in
/-- `q_head` leads to the list, less the node that is being linked or taken out in front. -/
theorem words_suffix {qHead qTail : Option Nat} (words : pc.Words nodes qHead qTail) :
    ∃ before after, nodes = before ++ after ∧ qHead = after.head? ∧
      ∀ a ∈ before, pc.busy = some a := by
  cases pc
  case finish front jp i =>
    cases front with
    | false =>
      obtain ⟨_, _, head, _⟩ := words
      exact ⟨[], nodes, rfl, head, nofun⟩
    | true =>
      obtain ⟨old, split, head, _⟩ := words
      exact ⟨[jp], old, split, head, by simp [Pc.busy]⟩
  case removeLinks i jp ends =>
    cases ends with
    | head =>
      obtain ⟨rest, split, head, _⟩ := words
      exact ⟨[jp], rest, split, head, by simp [Pc.busy]⟩
    | tail =>
      obtain ⟨_, _, _, head, _⟩ := words
      exact ⟨[], nodes, rfl, head, nofun⟩
    | middle => exact ⟨[], nodes, rfl, words.2.1, nofun⟩
  all_goals exact ⟨[], nodes, rfl, words.1, nofun⟩

theorem State.Inv.follow_eq (inv : s.Inv qThread nodes) (split : nodes = before ++ after)
    (head : s.qHead = after.head?)
    (n : Nat) : s.follow n = after[n]? := by
  induction n with
  | zero =>
    rw [follow, head]
    exact List.head?_eq_getElem?
  | succ n inductionHypothesis =>
    rw [follow, inductionHypothesis]
    cases here : after[n]? with
    | none =>
      have past : after.length ≤ n := List.getElem?_eq_none_iff.mp here
      rw [List.getElem?_eq_none (by omega)]
      rfl
    | some a =>
      obtain ⟨inside, rfl⟩ := List.getElem?_eq_some_iff.mp here
      have cut : nodes = (before ++ after.take n) ++ after[n] :: after.drop (n + 1) := by
        rw [split, List.append_assoc, ← List.drop_eq_getElem_cons inside, List.take_append_drop]
      obtain ⟨val, at_⟩ := inv.list.linked _ _ _ cut
      simp [at_, List.head?_eq_getElem?]

/-- The part of the list `q_head` leads to, and what is cut off from it. -/
theorem State.Inv.reachable (inv : s.Inv qThread nodes) : ∃ before after, nodes = before ++ after ∧
    (∀ n, s.follow n = after[n]?) ∧ ∀ a ∈ before, ∃ t, s.writer = some t ∧
      (s.pc t).busy = some a := by
  have words := inv.words
  unfold Words at words
  cases locked : s.writer with
  | none =>
    simp only [locked] at words
    exact ⟨[], nodes, rfl, inv.follow_eq (List.nil_append nodes).symm words.1, nofun⟩
  | some t =>
    simp only [locked] at words
    obtain ⟨before, after, split, head, busy⟩ := words_suffix words
    exact ⟨before, after, split, inv.follow_eq split head, fun a member => ⟨t, rfl, busy a member⟩⟩

theorem State.Inv.mine_of_job (inv : s.Inv qThread nodes) (job : s.HasJobFor t) :
    mine s.heap t nodes ≠ [] := by
  obtain ⟨before, after, split, follow, _⟩ := inv.reachable
  obtain ⟨n, a, node, leads, here, self⟩ := job
  rw [follow n] at leads
  have member : a ∈ nodes := by
    rw [split]
    exact List.mem_append_right _ (List.mem_of_getElem? leads)
  exact List.ne_nil_of_mem (mem_mine.mpr ⟨member, node, here, self⟩)

/-- A job that is on the list and not behind `q_head` is being inserted in front, or its worker is
removing it. -/
theorem State.Inv.job_of_mine (inv : s.Inv qThread nodes) (some_ : mine s.heap u nodes ≠ [])
    (found : index qThread u = some i)
    (idle : (s.pc u).busy = none) : s.HasJobFor u ∨ ∃ x front jp, s.pc x = .finish front jp i := by
  obtain ⟨before, after, split, follow, busy⟩ := inv.reachable
  obtain ⟨a, there⟩ := List.exists_mem_of_ne_nil _ some_
  obtain ⟨member, node, here, self⟩ := mem_mine.mp there
  -- the node hangs on `q_head`, or it is the one that a writer has just cut off
  rw [split, List.mem_append] at member
  obtain cut | reached := member
  · obtain ⟨t, _, holding⟩ := busy a cut
    have own := inv.thread t
    cases at_ : s.pc t
    case finish front jp k =>
      rw [at_] at own holding
      obtain rfl := Option.some.inj holding
      obtain ⟨node', here', target⟩ := own.regs
      obtain rfl : node = node' := by simpa [here] using here'
      rw [self, found, Option.some.injEq] at target
      exact .inr ⟨t, front, jp, target ▸ at_⟩
    case removeLinks k jp ends =>
      rw [at_] at own holding
      obtain rfl := Option.some.inj holding
      obtain ⟨_, node', here', self'⟩ := mem_of_first own.regs
      obtain rfl : node = node' := by simpa [here] using here'
      obtain rfl : t = u := self'.symm.trans self
      simp [at_, Pc.busy] at idle
    all_goals
      rw [at_] at holding
      simp [Pc.busy] at holding
  · obtain ⟨n, inside, rfl⟩ := List.getElem_of_mem reached
    exact .inl ⟨n, after[n], node, by rw [follow n, List.getElem?_eq_getElem inside], here, self⟩

/-! ## From place to place -/

/-- Where a worker may be while nobody but a signal tells it about a new job. -/
def Pc.sleepy : Pc → Option (Fin nthread)
  | .relock i | .wait _ i | .blocked _ i => some i
  | _ => none

/-- What the way through the functions keeps. -/
def Pc.Onward (old new : Pc) : Prop :=
  new = .fault ∨ (∀ i, old.owesSignal = some i → new.owesSignal = some i) ∧
    ∀ i, new.sleepy = some i → old.sleepy = some i ∨ new = .wait false i ∨ old = .notFound i

theorem lockMutex_pc (steps : s.lockMutex t i pc = some s') :
    s'.pc = Function.update s.pc t pc := by
  unfold State.lockMutex at steps
  split at steps
  · obtain rfl := Option.some.inj steps
    rfl
  · simp at steps

theorem unlockMutex_pc (steps : s.unlockMutex t i pc = some s') :
    s'.pc = Function.update s.pc t pc ∨ s'.pc = Function.update s.pc t .fault := by
  unfold State.unlockMutex at steps
  split at steps
  all_goals obtain rfl := Option.some.inj steps
  · exact .inl rfl
  · exact .inr rfl

theorem lockWrite_pc (steps : s.lockWrite t pc = some s') : s'.pc = Function.update s.pc t pc := by
  simp only [State.lockWrite, Option.ite_none_right_eq_some, Option.some.injEq] at steps
  obtain ⟨_, rfl⟩ := steps
  rfl

theorem unlockWrite_pc (steps : s.unlockWrite t pc = some s') :
    s'.pc = Function.update s.pc t pc ∨ s'.pc = Function.update s.pc t .fault := by
  unfold State.unlockWrite at steps
  split at steps
  all_goals obtain rfl := Option.some.inj steps
  · exact .inl rfl
  · exact .inr rfl

theorem lockRead_pc (steps : s.lockRead t pc = some s') : s'.pc = Function.update s.pc t pc := by
  simp only [State.lockRead, Option.ite_none_right_eq_some, Option.some.injEq] at steps
  obtain ⟨_, rfl⟩ := steps
  rfl

theorem unlockRead_pc (steps : s.unlockRead t pc = some s') :
    s'.pc = Function.update s.pc t pc ∨ s'.pc = Function.update s.pc t .fault := by
  unfold State.unlockRead at steps
  split at steps
  all_goals obtain rfl := Option.some.inj steps
  · exact .inl rfl
  · exact .inr rfl

theorem linkJob_pc (s : State τ) (t : τ) (front : Bool) (jp : Nat) (i : Fin nthread) :
    (s.linkJob t front jp i).pc = Function.update s.pc t (.finish front jp i) ∨
      (s.linkJob t front jp i).pc = Function.update s.pc t .fault := by
  unfold State.linkJob
  split
  · exact .inr rfl
  · simp only
    split
    · split
      · exact .inr rfl
      · exact .inl rfl
    · split
      · exact .inr rfl
      · exact .inl rfl

theorem onward_of {old new : Pc} (at_ : s.pc t = old)
    (goes : s'.pc = Function.update s.pc t new ∨ s'.pc = Function.update s.pc t .fault)
    (onward : old.Onward new) :
    ∃ pc, s'.pc = Function.update s.pc t pc ∧ (s.pc t).Onward pc := by
  obtain goes | faults := goes
  · exact ⟨new, goes, by rwa [at_]⟩
  · exact ⟨.fault, faults, .inl rfl⟩

/-- Only a signal changes the place of another thread. -/
theorem run_pc (steps : s.run qThread t = some s') :
    (∃ pc, s'.pc = Function.update s.pc t pc ∧ (s.pc t).Onward pc) ∨
      ∃ i, s.pc t = .signal i ∧ s' = (s.wake qThread i).goto t .idle := by
  cases at_ : s.pc t
  all_goals simp only [State.run, at_] at steps
  case signal i => exact .inr ⟨i, rfl, (Option.some.inj steps).symm⟩
  all_goals
    left
    rw [← at_]
  case idle | fault | blocked => simp at steps
  case mutex | lock | relock =>
    exact onward_of at_ (.inl (lockMutex_pc steps))
      (.inr ⟨by simp [Pc.owesSignal], by simp [Pc.sleepy]⟩)
  case woken second i =>
    refine onward_of at_ (.inl (lockMutex_pc steps)) (.inr ⟨by simp [Pc.owesSignal], ?_⟩)
    cases second <;> simp [Pc.sleepy]
  case unlock | wait | notFound | turn =>
    exact onward_of at_ (unlockMutex_pc steps) (.inr ⟨by simp [Pc.owesSignal], by simp [Pc.sleepy]⟩)
  case wrlock | removeLock =>
    exact onward_of at_ (.inl (lockWrite_pc steps))
      (.inr ⟨by simp [Pc.owesSignal], by simp [Pc.sleepy]⟩)
  case wrunlock | removeUnlock =>
    exact onward_of at_ (unlockWrite_pc steps) (.inr ⟨by simp [Pc.owesSignal], by simp [Pc.sleepy]⟩)
  case rdlock =>
    exact onward_of at_ (.inl (lockRead_pc steps))
      (.inr ⟨by simp [Pc.owesSignal], by simp [Pc.sleepy]⟩)
  case rdunlock i p =>
    refine onward_of at_ (unlockRead_pc steps) (.inr ⟨by simp [Pc.owesSignal], ?_⟩)
    cases p <;> simp [Pc.sleepy]
  case link front jp i =>
    obtain rfl := Option.some.inj steps
    exact onward_of at_ (linkJob_pc s t front jp i)
      (.inr ⟨by simp [Pc.owesSignal], by simp [Pc.sleepy]⟩)
  case finish front jp i =>
    have goes : s'.pc = Function.update s.pc t (.wrunlock i) := by
      split at steps
      all_goals
        obtain rfl := Option.some.inj steps
        rfl
    exact onward_of at_ (.inl goes) (.inr ⟨by simp [Pc.owesSignal], by simp [Pc.sleepy]⟩)
  case testTail i | testHead i =>
    obtain rfl := Option.some.inj steps
    split
    · exact onward_of at_ (.inl rfl) (.inr ⟨by simp [Pc.owesSignal], by simp [Pc.sleepy]⟩)
    · exact onward_of at_ (.inl rfl) (.inr ⟨by simp [Pc.owesSignal], by simp [Pc.sleepy]⟩)
  case search i p =>
    cases p with
    | none =>
      obtain rfl := Option.some.inj steps
      exact onward_of at_ (.inl rfl) (.inr ⟨by simp [Pc.owesSignal], by simp [Pc.sleepy]⟩)
    | some jp =>
      simp only at steps
      split at steps
      all_goals obtain rfl := Option.some.inj steps
      · exact onward_of at_ (.inl rfl) (.inl rfl)
      · split
        · exact onward_of at_ (.inl rfl) (.inr ⟨by simp [Pc.owesSignal], by simp [Pc.sleepy]⟩)
        · exact onward_of at_ (.inl rfl) (.inr ⟨by simp [Pc.owesSignal], by simp [Pc.sleepy]⟩)
  case execute | removeEnds | removeLinks =>
    split at steps
    all_goals obtain rfl := Option.some.inj steps
    · exact onward_of at_ (.inl rfl) (.inl rfl)
    · exact onward_of at_ (.inl rfl) (.inr ⟨by simp [Pc.owesSignal], by simp [Pc.sleepy]⟩)

theorem Pc.Onward.refl (pc : Pc) : pc.Onward pc :=
  .inr ⟨fun _ owes => owes, fun _ sleepy => .inl sleepy⟩

theorem step_pc {action : Action τ} (steps : s.step qThread action = some s') :
    (∃ pc, s'.pc = Function.update s.pc (actor action) pc ∧ (s.pc (actor action)).Onward pc) ∨
      ∃ t i, action = .run t ∧ s.pc t = .signal i ∧ s' = (s.wake qThread i).goto t .idle := by
  have stays (t : τ) (same : s'.pc = s.pc) : ∃ pc, s'.pc = Function.update s.pc t pc ∧
      (s.pc t).Onward pc :=
    ⟨s.pc t, by rw [same, Function.update_eq_self], .refl _⟩
  cases action with
  | run t =>
    obtain onward | ⟨i, at_, rfl⟩ := run_pc steps
    · exact .inl onward
    · exact .inr ⟨t, i, rfl, at_, rfl⟩
  | add t front node p =>
    left
    simp only [State.step] at steps
    split at steps
    · obtain rfl := Option.some.inj steps
      exact stays t rfl
    · rename_i idle
      split at steps
      · simp at steps
      · split at steps
        all_goals obtain rfl := Option.some.inj steps
        · exact stays t rfl
        · exact onward_of idle (.inl rfl) (.inr ⟨by simp [Pc.owesSignal], by simp [Pc.sleepy]⟩)
    · simp at steps
  | handleJob t =>
    left
    simp only [State.step] at steps
    split at steps
    · rename_i idle
      split at steps
      all_goals obtain rfl := Option.some.inj steps
      · exact stays t rfl
      · exact onward_of idle (.inl rfl) (.inr ⟨by simp [Pc.owesSignal], by simp [Pc.sleepy]⟩)
    · simp at steps
  | spurious t =>
    left
    simp only [State.step] at steps
    split at steps
    · rename_i at_
      obtain rfl := Option.some.inj steps
      exact onward_of at_ (.inl rfl) (.inr ⟨by simp [Pc.owesSignal], by simp [Pc.sleepy]⟩)
    · simp at steps

/-! ## Sleeping -/

/-- A worker that may sleep has nothing to do, or somebody still has to signal it. -/
def State.Sleeps (s : State τ) (nodes : List Nat) : Prop :=
  ∀ u i, (s.pc u).sleepy = some i → mine s.heap u nodes = [] ∨ ∃ x, (s.pc x).owesSignal = some i

theorem Pc.sleepy_worker (sleepy : pc.sleepy = some i) : pc.worker = some i := by
  cases pc <;> simp_all [Pc.sleepy, worker]

theorem Pc.sleepy_busy (sleepy : pc.sleepy = some i) : pc.busy = none := by
  cases pc <;> simp_all [Pc.sleepy, busy]

theorem Pc.sleepy_cases (sleepy : pc.sleepy = some i) :
    pc.betweenLocks = some i ∨ pc = .wait false i ∨ ∃ second, pc = .blocked second i := by
  cases pc
  case relock => exact .inl sleepy
  case wait second k =>
    obtain rfl := Option.some.inj sleepy
    cases second with
    | false => exact .inr (.inl rfl)
    | true => exact .inl rfl
  case blocked second k =>
    obtain rfl := Option.some.inj sleepy
    exact .inr (.inr ⟨second, rfl⟩)
  all_goals simp [Pc.sleepy] at sleepy

/-- What a step does to the jobs of a worker that may sleep: nothing new, or the step has still to
be signalled. -/
theorem Effect.asleep (effect : Effect qThread s nodes s' nodes' t)
    (found : index qThread u = some i)
    (nothing : mine s.heap u nodes = []) :
    mine s'.heap u nodes' = [] ∨ (s'.pc t).owesSignal = some i := by
  cases effect with
  | quiet mine _ _ => exact .inl (by rw [mine u, nothing])
  | linked front jp job k target owes _ _ mine _ _ _ =>
    by_cases self : job.jId = u
    · rw [self, found, Option.some.injEq] at target
      exact .inr (target ▸ owes)
    · exact .inl (by rw [mine u, if_neg self, nothing])
  | executed _ _ mine _ _ => exact .inl (by rw [mine u, nothing])
  | removed mine _ _ =>
    left
    rw [mine u]
    split
    · rw [nothing]
      rfl
    · exact nothing

theorem wake_blocked {second : Bool} (at_ : s.pc (qThread i) = .blocked second i) :
    (s.wake qThread i).pc (qThread i) = .woken second i := by
  simp [State.wake, at_, State.goto]

/-- A step that sends no signal. -/
theorem sleeps_onward (inv : s.Inv qThread nodes) (inv' : s'.Inv qThread nodes')
    (effect : Effect qThread s nodes s' nodes' t)
    (sleeps : s.Sleeps nodes) (goes : s'.pc = Function.update s.pc t pc)
    (onward : (s.pc t).Onward pc) : s'.Sleeps nodes' := by
  have self : s'.pc t = pc := by simp [goes]
  have others {u : τ} (other : u ≠ t) : s'.pc u = s.pc u := by simp [goes, other]
  have own := inv'.thread t
  rw [self] at own
  obtain fault | ⟨owes, sleepy⟩ := onward
  · rw [fault] at own
    exact own.regs.elim
  · have owing {i : Fin nthread} (before : ∃ x, (s.pc x).owesSignal = some i) :
        ∃ x, (s'.pc x).owesSignal = some i := by
      obtain ⟨x, before⟩ := before
      refine ⟨x, ?_⟩
      by_cases here : x = t
      · rw [here, self]
        exact owes i (here ▸ before)
      · rwa [others here]
    intro u i now
    -- what was known of a worker before the step is known of it still, or the step has to be signalled
    have found : index qThread u = some i := (inv'.thread u).worker i (Pc.sleepy_worker now)
    have later (before : mine s.heap u nodes = [] ∨ ∃ x, (s.pc x).owesSignal = some i) :
        mine s'.heap u nodes' = [] ∨ ∃ x, (s'.pc x).owesSignal = some i := by
      obtain nothing | before := before
      · exact (effect.asleep found nothing).imp_right fun owes => ⟨t, owes⟩
      · exact .inr (owing before)
    by_cases here : u = t
    · obtain rfl := here
      rw [self] at now
      -- it has been there already, or has just seen the empty queue, or has searched in vain
      obtain before | waits | searched := sleepy i now
      · exact later (sleeps u i before)
      · rw [waits] at own
        exact .inl own.regs
      · have regs := (inv.thread u).regs
        rw [searched] at regs
        exact later (.inl regs)
    · rw [others here] at now
      exact later (sleeps u i now)

/-- The step that sends a signal. -/
theorem sleeps_signal {k : Fin nthread} (inv : s.Inv qThread nodes)
    (effect : Effect qThread s nodes ((s.wake qThread k).goto t .idle) nodes' t)
    (at_ : s.pc t = .signal k)
    (sleeps : s.Sleeps nodes) (allowed : ¬SignalLost s (.run t)) :
    ((s.wake qThread k).goto t .idle).Sleeps nodes' := by
  intro u i now
  have other : u ≠ t := by
    rintro rfl
    simp [Pc.sleepy] at now
  have still : (s.wake qThread k).pc u = s.pc u := by
    obtain same | ⟨second, _, woken⟩ := State.Inv.wake_pc qThread s k u
    · exact same
    · rw [goto_other rfl other, woken] at now
      simp [Pc.sleepy] at now
  rw [goto_other rfl other, still] at now
  have own := inv.thread u
  have found : index qThread u = some i := own.worker i (Pc.sleepy_worker now)
  have nothing (none : mine s.heap u nodes = []) :
      mine ((s.wake qThread k).goto t .idle).heap u nodes' = [] ∨
        ∃ x, (((s.wake qThread k).goto t .idle).pc x).owesSignal = some i :=
    (effect.asleep found none).imp_right fun owes => ⟨t, owes⟩
  have somebody {x : τ} (apart : x ≠ t) (owes : (s.pc x).owesSignal = some i) :
      ∃ x, (((s.wake qThread k).goto t .idle).pc x).owesSignal = some i := by
    refine ⟨x, ?_⟩
    rw [goto_other rfl apart]
    obtain same | ⟨second, blocked, _⟩ := State.Inv.wake_pc qThread s k x
    · rwa [same]
    · simp [blocked, Pc.owesSignal] at owes
  obtain none | ⟨x, owes⟩ := sleeps u i now
  · exact nothing none
  · by_cases apart : x = t
    · -- the signal is for this worker, so it is not blocked yet
      obtain rfl : k = i := by simpa [apart, at_, Pc.owesSignal] using owes
      -- between its locks it has nothing to do, since the last signal is not sent there while it has
      have between (place : (s.pc u).betweenLocks = some k) :
          mine ((s.wake qThread k).goto t .idle).heap u nodes' = [] ∨
            ∃ x, (((s.wake qThread k).goto t .idle).pc x).owesSignal = some k := by
        by_cases job : s.HasJobFor u
        · have another : ∃ x, x ≠ t ∧ (s.pc x).owesSignal = some k := by
            by_contra nobody
            exact allowed ⟨k, u, at_, place, job, fun x other owes => nobody ⟨x, other, owes⟩⟩
          obtain ⟨x, other, owes⟩ := another
          exact .inr (somebody other owes)
        · by_cases none : mine s.heap u nodes = []
          · exact nothing none
          · have idle : (s.pc u).busy = Option.none := Pc.sleepy_busy now
            obtain here | ⟨x, front, jp, linking⟩ := inv.job_of_mine none found idle
            · exact absurd here job
            · have other : x ≠ t := by
                rintro rfl
                simp [at_] at linking
              exact .inr (somebody other (by rw [linking]; rfl))
      obtain place | empty | ⟨second, blocked⟩ := Pc.sleepy_cases now
      · exact between place
      · rw [empty] at own
        exact nothing own.regs
      · obtain rfl := index_eq found
        rw [wake_blocked blocked, blocked] at still
        simp at still
    · exact .inr (somebody apart owes)

theorem State.Sleeps.step {action : Action τ} (sleeps : s.Sleeps nodes) (inv : s.Inv qThread nodes)
    (allowed : ¬SignalLost s action) (steps : s.step qThread action = some s') :
    ∃ nodes', s'.Inv qThread nodes' ∧ s'.Sleeps nodes' := by
  obtain ⟨nodes', inv', _, effect⟩ := inv.step steps
  refine ⟨nodes', inv', ?_⟩
  obtain ⟨pc, goes, onward⟩ | ⟨t, i, rfl, at_, rfl⟩ := step_pc steps
  · exact sleeps_onward inv inv' effect sleeps goes onward
  · exact sleeps_signal inv effect at_ sleeps allowed

/-- A worker that is blocked sleeps, so there is no job for it when nobody owes it a signal. -/
theorem State.Sleeps.noLostWakeup (sleeps : s.Sleeps nodes) (inv : s.Inv qThread nodes) :
    s.NoLostWakeup := by
  intro t second i blocked nobody job
  obtain nothing | ⟨x, owes⟩ := sleeps t i (by rw [blocked]; rfl)
  · exact inv.mine_of_job job nothing
  · exact nobody x owes

/-! ## Every run -/

theorem no_lost_wakeup (actions : List (Action τ)) (s : State τ)
    (visits : Visits (State.step qThread) .start actions s)
    (meets : ∀ s₁ action, Takes (State.step qThread) .start actions s₁ action →
    ¬SignalLost s₁ action) :
    s.NoLostWakeup := by
  have start : ∃ nodes, (State.start : State τ).Inv qThread nodes ∧
      (State.start : State τ).Sleeps nodes :=
    ⟨[], State.Inv.start, fun u i sleepy => by simp [State.start, Pc.sleepy] at sleepy⟩
  have keeps (s : State τ) (action : Action τ) (s' : State τ) (kept : ∃ nodes, s.Inv qThread nodes ∧
      s.Sleeps nodes)
      (allowed : ¬SignalLost s action) (steps : s.step qThread action = some s') :
      ∃ nodes, s'.Inv qThread nodes ∧ s'.Sleeps nodes := by
    obtain ⟨nodes, inv, sleeps⟩ := kept
    exact sleeps.step inv allowed steps
  obtain ⟨nodes, inv, sleeps⟩ :=
    visits.invariant _ (fun s action => ¬SignalLost s action) start keeps meets
  exact sleeps.noLostWakeup inv

/-- Worker 0 finds a job for another one, and its own comes while it has given its mutex back. -/
def lostWakeup : List (Action (Fin (nthread + 1))) :=
  created ++ appends worker1 10 ++ List.replicate 8 (.run (workers worker0)) ++
    appends worker0 11 ++
    List.replicate 2 (.run (workers worker0))

theorem wakeup_lost :
    ¬∀ actions s, Visits (State.step workers) .start actions s → s.NoLostWakeup := by
  intro never
  have asleep : (execute (State.step workers) .start lostWakeup).any
      (fun s => s.pc (workers worker0) = .blocked true worker0 ∧
      (∀ x, (s.pc x).owesSignal ≠ some worker0) ∧ s.follow 1 = some 11 ∧
      (s.heap 11).any fun node => node.val.jId = workers worker0) = true := by
    decide +kernel
  obtain ⟨s, runs, ends⟩ := (Option.any_eq_true _ _).mp asleep
  obtain ⟨blocked, nobody, leads, there⟩ := of_decide_eq_true ends
  obtain ⟨node, here, self⟩ := (Option.any_eq_true _ _).mp there
  exact never lostWakeup s (.finish runs) _ _ _ blocked nobody ⟨1, 11, node, leads, here,
    of_decide_eq_true self⟩

/-- The job comes when the worker waits. -/
def keptWakeup : List (Action (Fin (nthread + 1))) :=
  created ++ appends worker1 10 ++ List.replicate 10 (.run (workers worker0)) ++ appends worker0 11

/-- No signal is sent to a worker between its two locks. -/
def nothingBetween (s : State (Fin (nthread + 1))) : Action (Fin (nthread + 1)) → Bool
  | .run t => decide (∀ i, s.pc t = .signal i → ∀ u, (s.pc u).betweenLocks ≠ some i)
  | _ => true

theorem no_lost_wakeup_kept : ∃ s, execute (State.step workers) .start keptWakeup = some s ∧
    s.pc (workers worker0) = .woken true worker0 ∧ s.NoLostWakeup := by
  have awake : (execute (State.step workers) .start keptWakeup).any
      (fun s => s.pc (workers worker0) = .woken true worker0) = true := by
    decide +kernel
  obtain ⟨s, runs, ends⟩ := (Option.any_eq_true _ _).mp awake
  refine ⟨s, runs, of_decide_eq_true ends, no_lost_wakeup keptWakeup s (.finish runs)
    fun s₁ action takes => ?_⟩
  have passes : allTaken (State.step workers) nothingBetween .start keptWakeup = true := by
    decide +kernel
  have test := takes.of_allTaken passes
  intro lost
  cases action with
  | run t =>
    obtain ⟨i, u, at_, between, _⟩ := lost
    exact of_decide_eq_true test i at_ u between
  | add t front job jp => exact lost
  | handleJob t => exact lost
  | spurious t => exact lost

end Apue.Threads.Queue
