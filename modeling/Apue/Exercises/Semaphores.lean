import Apue.Base.Machine
import Apue.Base.Semaphores

/-! # Parent and child that alternate with semaphores

`test_15.15` passes a token between a parent and its child through two System V semaphores: the
parent posts semaphore 1 and waits on semaphore 0, the child does the opposite.  Every `semop` is
made with `SEM_UNDO`, so when the child exits the kernel takes all its posts on semaphore 0 back.
If the parent has not yet taken the last of them, it is taken away from under it.

The adjustments that the kernel keeps for the exit add up over the loop and must not leave their
range, so a long loop ends in a `semop` of the child that is refused; its exit then leaves the
parent waiting as well.
-/

namespace Apue.Exercises

open Apue.Base

/-! ## The code -/

inductive Who where
  | parent
  | child
  deriving DecidableEq, Repr

inductive Pc where
  | update
  /-- Before the `semop` that adds 1. -/
  | post
  /-- Before the `semop` that takes 1. -/
  | take
  /-- Asleep in the `semop` that takes 1. -/
  | waiting
  /-- Behind the loop. -/
  | leaving
  /-- In `exit` because of a `semop` that has failed. -/
  | failed
  /-- In `exit` because the counter was not the expected one. -/
  | quit
  | exited
  deriving DecidableEq, Repr

structure Proc where
  pc : Pc
  /-- How often the loop has been gone through; `i` is twice that, for the child one more. -/
  round : Nat
  deriving DecidableEq, Repr

structure State where
  sem : SemSet (Fin 2) Who
  /-- The semaphores have been removed. -/
  removed : Bool
  counter : Nat
  parent : Proc
  child : Proc
  /-- Who has updated the counter so far. -/
  updates : List Who

/-- The loop test of the parent, `i < NLOOPS`. -/
def parentLoop (nloops round : Nat) : Pc := if 2 * round < nloops then .update else .leaving

/-- The loop test of the child, `i < NLOOPS + 1`. -/
def childLoop (nloops round : Nat) : Pc := if 2 * round + 1 < nloops + 1 then .take else .leaving

def State.start (nloops : Nat) : State where
  sem := .zero
  removed := false
  counter := 0
  parent := ⟨parentLoop nloops 0, 0⟩
  child := ⟨childLoop nloops 0, 0⟩
  updates := []

inductive Action where
  | parent
  | child
  /-- The kernel's exit processing. -/
  | exit (who : Who)
  deriving DecidableEq, Repr

def State.proc (s : State) : Who → Proc
  | .parent => s.parent
  | .child => s.child

def State.goto (s : State) (who : Who) (p : Proc) : State :=
  match who with
  | .parent => { s with parent := p }
  | .child => { s with child := p }

/-- A `semop` with one operation, with `SEM_UNDO`; where it fails, `err_sys` follows. -/
def State.semop (s : State) (who : Who) (num : Fin 2) (op : Int) (next : Proc) : Option State :=
  let p := s.proc who
  if s.removed then some (s.goto who { p with pc := .failed })
  else
    match s.sem.semop who [⟨num, op, true⟩] with
    | .done sem => some ({ s with sem := sem }.goto who next)
    -- a post does not come here
    | .blocks => if p.pc = .waiting then none else some (s.goto who { p with pc := .waiting })
    | .range => some (s.goto who { p with pc := .failed })

def State.stepParent (nloops : Nat) (s : State) : Option State :=
  let p := s.parent
  match p.pc with
  | .update =>
    let pc := if s.counter = 2 * p.round then .post else .quit
    some { s with counter := s.counter + 1, parent := { p with pc := pc }, updates := s.updates ++
      [.parent] }
  | .post => s.semop .parent 1 1 { p with pc := .take }
  | .take | .waiting => s.semop .parent 0 (-1) ⟨parentLoop nloops (p.round + 1), p.round + 1⟩
  -- the adjustments go with the semaphores
  | .leaving => some { s with removed := true, parent := { p with pc := .exited } }
  | .failed | .quit | .exited => none

def State.stepChild (nloops : Nat) (s : State) : Option State :=
  let p := s.child
  match p.pc with
  | .take | .waiting => s.semop .child 1 (-1) { p with pc := .update }
  | .update =>
    let pc := if s.counter = 2 * p.round + 1 then .post else .quit
    some { s with counter := s.counter + 1, child := { p with pc := pc }, updates := s.updates ++ [.child] }
  | .post => s.semop .child 0 1 ⟨childLoop nloops (p.round + 1), p.round + 1⟩
  | .leaving | .failed | .quit | .exited => none

/-- The process has called `exit`. -/
def Pc.ends (who : Who) (pc : Pc) : Bool :=
  match pc with
  | .failed | .quit => true
  | .leaving => who = .child
  | _ => false

/-- The adjustments are added, and a semaphore does not go below 0. -/
def State.stepExit (s : State) (who : Who) : Option State :=
  let p := s.proc who
  if p.pc.ends who then
    if s.removed then some (s.goto who { p with pc := .exited })
    else some ({ s with sem := s.sem.exit who }.goto who { p with pc := .exited })
  else none

def State.step (nloops : Nat) (s : State) : Action → Option State
  | .parent => s.stepParent nloops
  | .child => s.stepChild nloops
  | .exit who => s.stepExit who

/-- The child is gone, the parent waits on semaphore 0, and nobody is left to post it. -/
def State.Hung (s : State) : Prop :=
  s.child.pc = .exited ∧ s.sem.semval 0 = 0 ∧ s.parent.pc = .waiting

instance (s : State) : Decidable s.Hung := inferInstanceAs (Decidable (_ ∧ _ ∧ _))

/-- The child has come to the end of its loop, and the parent has taken its last post. -/
def State.Settled (s : State) : Prop := s.sem.semval 0 = 0 ∧ s.child.pc ≠ .failed

instance (s : State) : Decidable s.Settled := inferInstanceAs (Decidable (_ ∧ _))

/-- The updates are made in turn, the parent's first. -/
def Alternating (updates : List Who) : Prop :=
  ∀ (k : Nat) who, updates[k]? = some who → who = if k % 2 = 0 then .parent else .child

structure State.Alternates (s : State) : Prop where
  updates : Alternating s.updates
  /-- No check of the counter has failed. -/
  parent : s.parent.pc ≠ .quit
  child : s.child.pc ≠ .quit

/-! ## Where the token is -/

/-- In or before the `semop` that takes 1. -/
def Pc.Takes (pc : Pc) : Prop := pc = .take ∨ pc = .waiting

/-- The semaphores and what the exits would add to them, for each process and semaphore. -/
structure State.Sems (s : State) (sem0 sem1 parent0 parent1 child0 child1 : Int) : Prop where
  sem0 : s.sem.semval 0 = sem0
  sem1 : s.sem.semval 1 = sem1
  parent0 : s.sem.semadj .parent 0 = parent0
  parent1 : s.sem.semadj .parent 1 = parent1
  child0 : s.sem.semadj .child 0 = child0
  child1 : s.sem.semadj .child 1 = child1

theorem State.Sems.of_sem {s s' : State} {sem0 sem1 parent0 parent1 child0 child1 : Int}
    (sems : s.Sems sem0 sem1 parent0 parent1 child0 child1) (same : s'.sem = s.sem) :
    s'.Sems sem0 sem1 parent0 parent1 child0 child1 := by
  obtain ⟨one, two, three, four, five, six⟩ := sems
  exact ⟨same ▸ one, same ▸ two, same ▸ three, same ▸ four, same ▸ five, same ▸ six⟩

/-- The phases of a run in the round `r` of the parent.  In `refused` the child's adjustment for
semaphore 1 has come to its bound, and `lost` is the state in which nobody is left to post semaphore
0. -/
inductive State.Phase (nloops : Nat) (s : State) (r : Nat) : Prop where
  | parentTurn (more : 2 * r < nloops) (rounds : s.parent.round = r ∧ s.child.round = r) (bound : (r : Int) ≤ semaem)
      (sems : s.Sems 0 0 r (-r) (-r) r) (child : s.child.pc.Takes)
      (parent : s.parent.pc = .update ∧ s.counter = 2 * r ∨ s.parent.pc = .post ∧
        s.counter = 2 * r + 1)
  | toChild (more : 2 * r < nloops) (rounds : s.parent.round = r ∧ s.child.round = r) (bound : (r : Int) ≤ semaem)
      (sems : s.Sems 0 1 r (-r - 1) (-r) r) (child : s.child.pc.Takes) (parent : s.parent.pc.Takes)
      (counter : s.counter = 2 * r + 1)
  | childTurn (more : 2 * r < nloops) (rounds : s.parent.round = r ∧ s.child.round = r) (bound : (r : Int) < semaem)
      (sems : s.Sems 0 0 r (-r - 1) (-r) (r + 1)) (parent : s.parent.pc.Takes)
      (child : s.child.pc = .update ∧ s.counter = 2 * r + 1 ∨ s.child.pc = .post ∧
        s.counter = 2 * r + 2)
  | toParent (more : 2 * r < nloops) (rounds : s.parent.round = r ∧ s.child.round = r + 1) (bound : (r : Int) < semaem)
      (sems : s.Sems 1 0 r (-r - 1) (-r - 1) (r + 1)) (parent : s.parent.pc.Takes)
      (child : s.child.pc.Takes ∧ 2 * (r + 1) < nloops ∨ s.child.pc = .leaving ∧
        nloops ≤ 2 * (r + 1))
      (counter : s.counter = 2 * r + 2)
  | finished (sem0 : s.sem.semval 0 = 0) (adj : s.sem.semadj .child 0 ≤ 0) (parent : s.parent.pc = .leaving ∨ s.parent.pc = .exited)
      (child : s.child.pc = .leaving ∨ s.child.pc = .exited)
  | refused (long : 2 * semaem < nloops) (sem0 : s.sem.semval 0 = 0) (adj : s.sem.semadj .child 0 ≤ 0)
      (parent : s.parent.pc.Takes) (child : s.child.pc = .failed)
  | lost (sem0 : s.sem.semval 0 = 0) (parent : s.parent.pc.Takes) (child : s.child.pc = .exited)

/-- The invariant of all runs. -/
structure State.Inv (nloops : Nat) (s : State) : Prop where
  phase : ∃ r, s.Phase nloops r
  updates : Alternating s.updates
  counted : s.counter = s.updates.length
  /-- Only the parent removes the semaphores, at its end. -/
  present : s.parent.pc ≠ .exited → s.removed = false

/-- The child has left while the parent still needs a post. -/
def State.Lost (s : State) : Prop := s.child.pc = .exited ∧ s.parent.pc.Takes

variable {nloops : Nat} {s s' : State}

/-! ## One operation -/

/-- Every way a `semop` on semaphores that exist can go on. -/
theorem State.semop_cases {who : Who} {num : Fin 2} {op : Int} {next : Proc}
    (here : s.removed = false) (adds : op ≠ 0)
    (steps : s.semop who num op next = some s') :
    (0 ≤ s.sem.semval num + op ∧ s.sem.semadj who num - op ≤ semaem ∧
        s' = { s with sem := s.sem.add who ⟨num, op, true⟩ }.goto who next) ∨
      (s.sem.semval num + op < 0 ∧ s' = s.goto who { s.proc who with pc := .waiting }) ∨
      ((0 ≤ s.sem.semval num + op ∧
          (semvmx < s.sem.semval num + op ∨ s.sem.semadj who num - op < -semaem - 1 ∨
          semaem < s.sem.semadj who num - op)) ∧
        s' = s.goto who { s.proc who with pc := .failed }) := by
  simp only [State.semop, here, Bool.false_eq_true, if_false, SemSet.semop, SemSet.perform,
    adds] at steps
  by_cases empty : s.sem.semval num + op < 0
  · simp only [empty, if_true, Option.ite_none_left_eq_some, Option.some.injEq] at steps
    exact .inr (.inl ⟨empty, steps.2.symm⟩)
  have there := Int.not_lt.mp empty
  by_cases large : semvmx < s.sem.semval num + op
  · simp only [empty, large, if_true, if_false, Option.some.injEq] at steps
    exact .inr (.inr ⟨⟨there, .inl large⟩, steps.symm⟩)
  by_cases range : -semaem - 1 ≤ s.sem.semadj who num - op ∧ s.sem.semadj who num - op ≤ semaem
  · simp only [empty, large, range, and_self, not_true_eq_false, and_false, if_false,
      Option.some.injEq] at steps
    refine .inl ⟨there, range.2, ?_⟩
    rw [here]
    exact steps.symm
  · simp only [empty, large, range, not_false_eq_true, and_self, if_true, if_false,
      Option.some.injEq] at steps
    exact .inr (.inr ⟨⟨there, .inr (by omega)⟩, steps.symm⟩)

theorem Alternating.append {updates : List Who} (alternating : Alternating updates) {who : Who}
    (next : who = if updates.length % 2 = 0 then .parent else .child) :
    Alternating (updates ++ [who]) := by
  intro k other found
  rw [List.getElem?_append] at found
  split at found
  · exact alternating k other found
  · obtain rfl : k = updates.length := by
      have bound := (List.getElem?_eq_some_iff.mp found).1
      simp only [List.length_singleton] at bound
      omega
    obtain rfl : who = other := by simpa using found
    exact next

theorem parentLoop_cases (round : Nat) : (2 * round < nloops ∧ parentLoop nloops round = .update) ∨
    (nloops ≤ 2 * round ∧ parentLoop nloops round = .leaving) := by
  unfold parentLoop
  split
  · exact .inl ⟨by assumption, rfl⟩
  · exact .inr ⟨by omega, rfl⟩

theorem childLoop_cases (round : Nat) : (2 * round < nloops ∧ childLoop nloops round = .take) ∨
    (nloops ≤ 2 * round ∧ childLoop nloops round = .leaving) := by
  unfold childLoop
  split
  · exact .inl ⟨by omega, rfl⟩
  · exact .inr ⟨by omega, rfl⟩

theorem State.start_inv (nloops : Nat) : (State.start nloops).Inv nloops := by
  refine ⟨⟨0, ?_⟩, by simp [start, Alternating], rfl, fun _ => rfl⟩
  have sems : (State.start nloops).Sems 0 0 0 0 0 0 := ⟨rfl, rfl, rfl, rfl, rfl, rfl⟩
  obtain ⟨more, parent⟩ | ⟨ended, parent⟩ := @parentLoop_cases nloops 0
  · obtain ⟨_, child⟩ | ⟨_, _⟩ := @childLoop_cases nloops 0
    · exact .parentTurn more ⟨rfl, rfl⟩ (by decide) sems (.inl child) (.inl ⟨parent, rfl⟩)
    · omega
  · obtain ⟨_, _⟩ | ⟨_, child⟩ := @childLoop_cases nloops 0
    · omega
    · exact .finished rfl (Int.le_refl 0) (.inl parent) (.inl child)

theorem Pc.Takes.present {pc : Pc} (takes : pc.Takes) : pc ≠ .exited := by
  obtain rfl | rfl := takes <;> simp

theorem State.stepParent_take (parent : s.parent.pc.Takes) : s.stepParent nloops =
    s.semop .parent 0 (-1) ⟨parentLoop nloops (s.parent.round + 1), s.parent.round + 1⟩ := by
  obtain at_ | at_ := parent <;> simp [State.stepParent, at_]

theorem State.stepChild_take (child : s.child.pc.Takes) :
    s.stepChild nloops = s.semop .child 1 (-1) ⟨.update, s.child.round⟩ := by
  obtain at_ | at_ := child <;> simp [State.stepChild, at_]

/-- A parent that finds semaphore 0 at 0 sleeps. -/
theorem State.stepParent_sleeps (parent : s.parent.pc.Takes) (here : s.removed = false)
    (sem0 : s.sem.semval 0 = 0)
    (steps : s.stepParent nloops = some s') :
    s' = { s with parent := { s.parent with pc := .waiting } } := by
  rw [State.stepParent_take parent] at steps
  obtain ⟨some_, _⟩ | ⟨_, sleeps⟩ | ⟨⟨some_, _⟩, _⟩ := State.semop_cases here (by decide) steps
  · omega
  · exact sleeps
  · omega

/-- A child that finds semaphore 1 at 0 sleeps. -/
theorem State.stepChild_sleeps (child : s.child.pc.Takes) (here : s.removed = false)
    (sem1 : s.sem.semval 1 = 0)
    (steps : s.stepChild nloops = some s') :
    s' = { s with child := { s.child with pc := .waiting } } := by
  rw [State.stepChild_take child] at steps
  obtain ⟨some_, _⟩ | ⟨_, sleeps⟩ | ⟨⟨some_, _⟩, _⟩ := State.semop_cases here (by decide) steps
  · omega
  · exact sleeps
  · omega

/-- The parent posts semaphore 1. -/
theorem State.Inv.parent_posts {r : Nat} (inv : s.Inv nloops) (more : 2 * r < nloops)
    (rounds : s.parent.round = r ∧ s.child.round = r) (bound : (r : Int) ≤ semaem)
    (sems : s.Sems 0 0 r (-r) (-r) r)
    (child : s.child.pc.Takes) (at_ : s.parent.pc = .post) (counter : s.counter = 2 * r + 1)
    (steps : s.stepParent nloops = some s') : s'.Inv nloops ∧ (s'.Lost → s.Lost) := by
  have here := inv.present (by simp [at_])
  simp only [State.stepParent, at_] at steps
  obtain ⟨sem0, sem1, parent0, parent1, child0, child1⟩ := sems
  obtain ⟨_, _, rfl⟩ | ⟨empty, _⟩ | ⟨⟨_, range⟩, _⟩ := State.semop_cases here (by decide) steps
  · refine ⟨⟨⟨r, .toChild more rounds bound ?_ child (.inl rfl) counter⟩, inv.updates, inv.counted,
      fun _ => here⟩,
      fun lost => absurd lost.1 child.present⟩
    constructor <;> simp [State.goto, SemSet.add_semval, SemSet.add_semadj, *]
  · omega
  · simp only [semvmx, semaem] at range bound
    omega

/-- The parent takes the post of the child. -/
theorem State.Inv.parent_takes {r : Nat} (inv : s.Inv nloops)
    (rounds : s.parent.round = r ∧ s.child.round = r + 1) (bound : (r : Int) < semaem)
    (sems : s.Sems 1 0 r (-r - 1) (-r - 1) (r + 1)) (parent : s.parent.pc.Takes)
    (child : s.child.pc.Takes ∧ 2 * (r + 1) < nloops ∨ s.child.pc = .leaving ∧ nloops ≤ 2 * (r + 1))
    (counter : s.counter = 2 * r + 2) (steps : s.stepParent nloops = some s') :
    s'.Inv nloops ∧ (s'.Lost → s.Lost) := by
  have here := inv.present parent.present
  rw [State.stepParent_take parent, rounds.1] at steps
  obtain ⟨sem0, sem1, parent0, parent1, child0, child1⟩ := sems
  obtain ⟨_, _, rfl⟩ | ⟨empty, _⟩ | ⟨⟨_, range⟩, _⟩ := State.semop_cases here (by decide) steps
  · obtain ⟨again, next⟩ | ⟨ended, next⟩ := @parentLoop_cases nloops (r + 1)
    · obtain ⟨waits, _⟩ | ⟨_, ended⟩ := child
      · refine ⟨⟨⟨r + 1, .parentTurn again ⟨rfl, rounds.2⟩ ?_ ?_ waits (.inl ⟨next, counter⟩)⟩,
          inv.updates, inv.counted,
          fun _ => here⟩, fun lost => absurd lost.1 waits.present⟩
        · push_cast
          omega
        · constructor <;> simp [State.goto, SemSet.add_semval, SemSet.add_semadj, *] <;> omega
      · omega
    · obtain ⟨_, again⟩ | ⟨leaves, _⟩ := child
      · omega
      · refine ⟨⟨⟨r, .finished ?_ ?_ (.inl next) (.inl leaves)⟩, inv.updates, inv.counted,
          fun _ => here⟩, fun lost => ?_⟩
        · simp [State.goto, SemSet.add_semval, sem0]
        · simp only [State.goto, SemSet.add_semadj, reduceCtorEq, and_true, and_false, if_false, child0]
          omega
        · have gone : s.child.pc = .exited := lost.1
          simp [leaves] at gone
  · omega
  · simp only [semvmx, semaem] at range bound
    omega

theorem State.Inv.stepParent (inv : s.Inv nloops) (steps : s.stepParent nloops = some s') :
    s'.Inv nloops ∧ (s'.Lost → s.Lost) := by
  have ⟨⟨r, phase⟩, updates, counted, present⟩ := inv
  cases phase with
  | parentTurn more rounds bound sems child parent =>
    obtain ⟨at_, counter⟩ | ⟨at_, counter⟩ := parent
    · simp only [State.stepParent, at_, counter, rounds.1, if_true, Option.some.injEq] at steps
      subst steps
      have turn : (Who.parent : Who) = if s.updates.length % 2 = 0 then .parent else .child := by
        rw [← counted, counter, if_pos (by omega)]
      refine ⟨⟨⟨r, .parentTurn more ⟨rfl, rounds.2⟩ bound (sems.of_sem rfl) child
        (.inr ⟨rfl, rfl⟩)⟩,
        updates.append turn, ?_, ?_⟩, fun lost => absurd lost.1 child.present⟩
      · simp [← counted, counter]
      · exact fun _ => present (by simp [at_])
    · exact inv.parent_posts more rounds bound sems child at_ counter steps
  | toChild more rounds bound sems child parent counter =>
    have here := present parent.present
    obtain rfl := State.stepParent_sleeps parent here sems.sem0 steps
    exact ⟨⟨⟨r, .toChild more rounds bound (sems.of_sem rfl) child (.inr rfl) counter⟩,
      updates, counted,
      fun _ => here⟩, fun lost => ⟨lost.1, parent⟩⟩
  | childTurn more rounds bound sems parent child =>
    have here := present parent.present
    obtain rfl := State.stepParent_sleeps parent here sems.sem0 steps
    exact ⟨⟨⟨r, .childTurn more rounds bound (sems.of_sem rfl) (.inr rfl) child⟩, updates, counted,
      fun _ => here⟩, fun lost => ⟨lost.1, parent⟩⟩
  | toParent more rounds bound sems parent child counter =>
    exact inv.parent_takes rounds bound sems parent child counter steps
  | finished sem0 adj parent child =>
    obtain at_ | at_ := parent
    · simp only [State.stepParent, at_, Option.some.injEq] at steps
      subst steps
      exact ⟨⟨⟨r, .finished sem0 adj (.inr rfl) child⟩, updates, counted, by simp⟩,
        fun lost => absurd rfl lost.2.present⟩
    · simp [State.stepParent, at_] at steps
  | refused long sem0 adj parent child =>
    have here := present parent.present
    obtain rfl := State.stepParent_sleeps parent here sem0 steps
    exact ⟨⟨⟨r, .refused long sem0 adj (.inr rfl) child⟩, updates, counted, fun _ => here⟩,
      fun lost => ⟨lost.1, parent⟩⟩
  | lost sem0 parent child =>
    have here := present parent.present
    obtain rfl := State.stepParent_sleeps parent here sem0 steps
    exact ⟨⟨⟨r, .lost sem0 (.inr rfl) child⟩, updates, counted, fun _ => here⟩,
      fun _ => ⟨child, parent⟩⟩

/-- The child takes the post of the parent, or its adjustment has come to the bound. -/
theorem State.Inv.child_takes {r : Nat} (inv : s.Inv nloops) (more : 2 * r < nloops)
    (rounds : s.parent.round = r ∧ s.child.round = r) (bound : (r : Int) ≤ semaem)
    (sems : s.Sems 0 1 r (-r - 1) (-r) r) (child : s.child.pc.Takes) (parent : s.parent.pc.Takes)
    (counter : s.counter = 2 * r + 1) (steps : s.stepChild nloops = some s') :
    s'.Inv nloops ∧ ¬s'.Lost := by
  have here := inv.present parent.present
  rw [State.stepChild_take child] at steps
  obtain ⟨sem0, sem1, parent0, parent1, child0, child1⟩ := sems
  obtain ⟨_, fits, rfl⟩ | ⟨empty, _⟩ | ⟨⟨_, range⟩, rfl⟩ := State.semop_cases here (by decide) steps
  · refine ⟨⟨⟨r, .childTurn more rounds (by omega) ?_ parent (.inl ⟨rfl, counter⟩)⟩, inv.updates,
      inv.counted,
      fun _ => here⟩, fun lost => by simp [State.Lost, State.goto] at lost⟩
    constructor <;> simp [State.goto, SemSet.add_semval, SemSet.add_semadj, *]
  · omega
  · refine ⟨⟨⟨r, .refused ?_ sem0 ?_ parent rfl⟩, inv.updates, inv.counted, fun _ => here⟩,
      fun lost => by simp [State.Lost, State.goto] at lost⟩
    · simp only [semvmx, semaem] at range bound ⊢
      omega
    · simp only [State.goto, child0]
      omega

/-- The child posts semaphore 0. -/
theorem State.Inv.child_posts {r : Nat} (inv : s.Inv nloops) (more : 2 * r < nloops)
    (rounds : s.parent.round = r ∧ s.child.round = r) (bound : (r : Int) < semaem)
    (sems : s.Sems 0 0 r (-r - 1) (-r) (r + 1)) (parent : s.parent.pc.Takes)
    (at_ : s.child.pc = .post)
    (counter : s.counter = 2 * r + 2) (steps : s.stepChild nloops = some s') :
    s'.Inv nloops ∧ ¬s'.Lost := by
  have here := inv.present parent.present
  simp only [State.stepChild, at_, rounds.2] at steps
  have again := @childLoop_cases nloops (r + 1)
  have next : (childLoop nloops (r + 1)).Takes ∧ 2 * (r + 1) < nloops ∨
      childLoop nloops (r + 1) = .leaving ∧ nloops ≤ 2 * (r + 1) := by
    obtain ⟨more, loops⟩ | ⟨ended, loops⟩ := again
    · exact .inl ⟨.inl loops, more⟩
    · exact .inr ⟨loops, ended⟩
  obtain ⟨sem0, sem1, parent0, parent1, child0, child1⟩ := sems
  obtain ⟨_, _, rfl⟩ | ⟨empty, _⟩ | ⟨⟨_, range⟩, _⟩ := State.semop_cases here (by decide) steps
  · refine ⟨⟨⟨r, .toParent more ⟨rounds.1, rfl⟩ bound ?_ parent next counter⟩, inv.updates,
      inv.counted, fun _ => here⟩,
      fun lost => ?_⟩
    · constructor <;> simp [State.goto, SemSet.add_semval, SemSet.add_semadj, *]
    · have gone : childLoop nloops (r + 1) = .exited := lost.1
      obtain ⟨_, loops⟩ | ⟨_, loops⟩ := again <;> simp [loops] at gone
  · omega
  · simp only [semvmx, semaem] at range bound
    omega

theorem State.Inv.stepChild (inv : s.Inv nloops) (steps : s.stepChild nloops = some s') :
    s'.Inv nloops ∧ ¬s'.Lost := by
  have ⟨⟨r, phase⟩, updates, counted, present⟩ := inv
  cases phase with
  | parentTurn more rounds bound sems child parent =>
    have here := present (by obtain ⟨at_, _⟩ | ⟨at_, _⟩ := parent <;> simp [at_])
    obtain rfl := State.stepChild_sleeps child here sems.sem1 steps
    exact ⟨⟨⟨r, .parentTurn more rounds bound (sems.of_sem rfl) (.inr rfl) parent⟩, updates,
      counted, fun _ => here⟩,
      fun lost => by simp [State.Lost] at lost⟩
  | toChild more rounds bound sems child parent counter =>
    exact inv.child_takes more rounds bound sems child parent counter steps
  | childTurn more rounds bound sems parent child =>
    have here := present parent.present
    obtain ⟨at_, counter⟩ | ⟨at_, counter⟩ := child
    · simp only [State.stepChild, at_, rounds.2, counter, if_true, Option.some.injEq] at steps
      subst steps
      have turn : (Who.child : Who) = if s.updates.length % 2 = 0 then .parent else .child := by
        rw [← counted, counter, if_neg (by omega)]
      refine ⟨⟨⟨r, .childTurn more ⟨rounds.1, rfl⟩ bound (sems.of_sem rfl) parent
        (.inr ⟨rfl, rfl⟩)⟩, updates.append turn,
        ?_, fun _ => here⟩, fun lost => by simp [State.Lost] at lost⟩
      simp [← counted, counter]
    · exact inv.child_posts more rounds bound sems parent at_ counter steps
  | toParent more rounds bound sems parent child counter =>
    have here := present parent.present
    obtain ⟨waits, again⟩ | ⟨leaves, _⟩ := child
    · obtain rfl := State.stepChild_sleeps waits here sems.sem1 steps
      exact ⟨⟨⟨r, .toParent more rounds bound (sems.of_sem rfl) parent
        (.inl ⟨.inr rfl, again⟩) counter⟩, updates, counted,
        fun _ => here⟩, fun lost => by simp [State.Lost] at lost⟩
    · simp [State.stepChild, leaves] at steps
  | finished sem0 adj parent child =>
    obtain at_ | at_ := child <;> simp [State.stepChild, at_] at steps
  | refused long sem0 adj parent child => simp [State.stepChild, child] at steps
  | lost sem0 parent child => simp [State.stepChild, child] at steps

/-- The parent does not come to `exit` before it has removed the semaphores. -/
theorem State.Inv.parent_goes (inv : s.Inv nloops) : s.parent.pc.ends .parent = false := by
  have ⟨⟨r, phase⟩, _, _, _⟩ := inv
  have takes (pc : Pc) (waits : pc.Takes) : pc.ends .parent = false := by
    obtain rfl | rfl := waits <;> rfl
  cases phase with
  | parentTurn _ _ _ _ _ parent => obtain ⟨at_, _⟩ | ⟨at_, _⟩ := parent <;> rw [at_] <;> rfl
  | finished _ _ parent _ => obtain at_ | at_ := parent <;> rw [at_] <;> rfl
  | toChild _ _ _ _ _ parent | childTurn _ _ _ _ parent | toParent _ _ _ _ parent | refused _ _ _ parent | lost _ parent =>
    exact takes _ parent

/-- What the exit of the child leaves of semaphore 0 when it has posted as much as there is. -/
theorem exit_sem0 (sem : SemSet (Fin 2) Who) (spent : sem.semval 0 + sem.semadj .child 0 ≤ 0) :
    (sem.exit .child).semval 0 = 0 := by
  rw [SemSet.exit_semval, semvmx]
  omega

/-- The exit takes all posts back; the parent is left without one when it has not taken the last or
the child has failed. -/
theorem State.Inv.stepExit {who : Who} (inv : s.Inv nloops) (steps : s.stepExit who = some s') :
    s'.Inv nloops ∧ who = .child ∧ (s'.Lost ↔ ¬s.Settled) := by
  have ⟨⟨r, phase⟩, updates, counted, present⟩ := inv
  cases who with
  | parent => simp [State.stepExit, State.proc, inv.parent_goes] at steps
  | child =>
    simp only [State.stepExit, Option.ite_none_right_eq_some] at steps
    obtain ⟨ends, steps⟩ := steps
    simp only [State.proc] at ends steps
    have awake (waits : s.child.pc.Takes) : False := by
      obtain at_ | at_ := waits <;> simp [at_, Pc.ends] at ends
    cases phase with
    | parentTurn more rounds bound sems child parent => exact (awake child).elim
    | toChild more rounds bound sems child parent counter => exact (awake child).elim
    | childTurn more rounds bound sems parent child =>
      obtain ⟨at_, _⟩ | ⟨at_, _⟩ := child <;> simp [at_, Pc.ends] at ends
    | toParent more rounds bound sems parent child counter =>
      have here := present parent.present
      -- one post is left, and at least one is taken back
      have none := exit_sem0 s.sem (by rw [sems.sem0, sems.child0]; omega)
      simp only [here, Bool.false_eq_true, if_false, Option.some.injEq] at steps
      subst steps
      exact ⟨⟨⟨r, .lost none parent rfl⟩, updates, counted, fun _ => rfl⟩, rfl,
        ⟨fun _ => by simp [State.Settled, sems.sem0], fun _ => ⟨rfl, parent⟩⟩⟩
    | refused long sem0 adj parent child =>
      have here := present parent.present
      have none := exit_sem0 s.sem (by rw [sem0]; omega)
      simp only [here, Bool.false_eq_true, if_false, Option.some.injEq] at steps
      subst steps
      exact ⟨⟨⟨r, .lost none parent rfl⟩, updates, counted, fun _ => rfl⟩, rfl,
        ⟨fun _ => by simp [State.Settled, child], fun _ => ⟨rfl, parent⟩⟩⟩
    | finished sem0 adj parent child =>
      have needless : ¬s.parent.pc.Takes := by
        obtain at_ | at_ := parent <;> simp [at_, Pc.Takes]
      have settled : s.Settled := by
        refine ⟨sem0, ?_⟩
        obtain at_ | at_ := child <;> simp [at_]
      split at steps
      · simp only [Option.some.injEq] at steps
        subst steps
        exact ⟨⟨⟨r, .finished sem0 adj parent (.inr rfl)⟩, updates, counted, present⟩, rfl,
          ⟨fun lost => absurd lost.2 needless, fun left => absurd settled left⟩⟩
      · have none := exit_sem0 s.sem (by rw [sem0]; omega)
        simp only [Option.some.injEq] at steps
        subst steps
        refine ⟨⟨⟨r, .finished none ?_ parent (.inr rfl)⟩, updates, counted, present⟩, rfl,
          ⟨fun lost => absurd lost.2 needless, fun left => absurd settled left⟩⟩
        simp [State.goto]
    | lost sem0 parent child => simp [child, Pc.ends] at ends

/-! ## Runs -/

theorem State.Inv.step (inv : s.Inv nloops) {action : Action}
    (steps : s.step nloops action = some s') :
    s'.Inv nloops ∧ (s'.Lost → s.Lost ∨ action = .exit .child ∧ ¬s.Settled) := by
  cases action with
  | parent =>
    obtain ⟨next, lost⟩ := inv.stepParent steps
    exact ⟨next, fun gone => .inl (lost gone)⟩
  | child =>
    obtain ⟨next, kept⟩ := inv.stepChild steps
    exact ⟨next, fun gone => absurd gone kept⟩
  | exit who =>
    obtain ⟨next, rfl, lost⟩ := inv.stepExit steps
    exact ⟨next, fun gone => .inr ⟨rfl, lost.mp gone⟩⟩

theorem State.Inv.alternates (inv : s.Inv nloops) : s.Alternates := by
  obtain ⟨r, phase⟩ := inv.phase
  refine ⟨inv.updates, fun quits => ?_, fun quits => ?_⟩
  all_goals
    cases phase <;> simp_all [Pc.Takes]

theorem State.Inv.lost_here (inv : s.Inv nloops) (lost : s.Lost) :
    s.removed = false ∧ s.sem.semval 0 = 0 := by
  refine ⟨inv.present lost.2.present, ?_⟩
  obtain ⟨gone, needs⟩ := lost
  obtain ⟨r, phase⟩ := inv.phase
  cases phase <;> simp_all [Pc.Takes]

/-- A `semop` of the child is refused only in a long loop. -/
theorem State.Inv.failed_long (inv : s.Inv nloops) (failed : s.child.pc = .failed) :
    65535 ≤ nloops := by
  obtain ⟨r, phase⟩ := inv.phase
  cases phase with
  | refused long =>
    rw [semaem] at long
    omega
  | _ => simp_all [Pc.Takes]

/-- Nobody can help a parent that has lost its post. -/
theorem State.Inv.lost_stays (inv : s.Inv nloops) (lost : s.Lost) {action : Action}
    (steps : s.step nloops action = some s') : s'.Lost := by
  have ⟨here, sem0⟩ := inv.lost_here lost
  cases action with
  | parent =>
    obtain rfl := State.stepParent_sleeps lost.2 here sem0 steps
    exact ⟨lost.1, .inr rfl⟩
  | child => simp [State.step, State.stepChild, lost.1] at steps
  | exit who =>
    have gone : who = .child := (inv.stepExit steps).2.1
    simp [State.step, State.stepExit, State.proc, gone, lost.1, Pc.ends] at steps

theorem State.Inv.lost_run (inv : s.Inv nloops) (lost : s.Lost) {actions : List Action}
    (runs : execute (State.step nloops) s actions = some s') : s'.Inv nloops ∧ s'.Lost :=
  (Visits.finish runs).invariant (fun s => s.Inv nloops ∧ s.Lost) (fun _ _ => True) ⟨inv, lost⟩
    (fun _ _ _ both _ steps => ⟨(both.1.step steps).1, both.1.lost_stays both.2 steps⟩)
      (fun _ _ _ => trivial)

/-- It is asleep, or falls asleep next. -/
theorem State.Inv.lost_hangs (inv : s.Inv nloops) (lost : s.Lost) :
    ∃ more s', execute (State.step nloops) s more = some s' ∧ s'.Hung := by
  have ⟨here, sem0⟩ := inv.lost_here lost
  obtain at_ | at_ := lost.2
  · refine ⟨[.parent], { s with parent := { s.parent with pc := .waiting } }, ?_, lost.1, sem0, rfl⟩
    simp [execute, State.step, State.stepParent, State.semop, State.proc, State.goto, SemSet.semop,
      SemSet.perform, at_, here, sem0]
  · exact ⟨[], s, rfl, lost.1, sem0, at_⟩

/-- The updates always alternate.  In a run in which the adjustments of the child are applied with
semaphore 0 at 0, behind its loop, the parent is not left waiting; after a run in which they are
applied with a post left, or because a `semop` of the child has been refused, it can be. -/
theorem alternation_never_hangs (nloops : Nat) {actions : List Action} {s : State}
    (runs : execute (State.step nloops) (State.start nloops) actions = some s) :
    s.Alternates ∧ (s.child.pc = .failed → 65535 ≤ nloops) ∧
      ((∀ s', Takes (State.step nloops) (State.start nloops) actions s' (.exit .child) →
        s'.Settled) → ¬s.Hung) ∧
      ∀ s', Takes (State.step nloops) (State.start nloops) actions s' (.exit .child) → ¬s'.Settled →
        ∃ more s'', execute (State.step nloops) s more = some s'' ∧ s''.Hung := by
  have start := State.start_inv nloops
  have inv (s' : State) (visits : Visits (State.step nloops) (State.start nloops) actions s') :
      s'.Inv nloops :=
    visits.invariant (State.Inv nloops) (fun _ _ => True) start
      (fun _ _ _ inv _ steps => (inv.step steps).1)
      (fun _ _ _ => trivial)
  refine ⟨(inv s (.finish runs)).alternates, (inv s (.finish runs)).failed_long,
    fun meets hung => ?_,
    fun s' takes left => ?_⟩
  · have kept : s.Inv nloops ∧ ¬s.Lost := by
      refine (Visits.finish runs).invariant (fun s => s.Inv nloops ∧ ¬s.Lost)
        (fun s action => action = .exit .child →
          s.Settled) ⟨start, fun lost => ?_⟩ (fun s action s' both allowed steps => ?_) ?_
      · obtain ⟨_, loops⟩ | ⟨_, loops⟩ :=
          @childLoop_cases nloops 0 <;> simp [State.Lost, State.start, loops] at lost
      · obtain ⟨next, lost⟩ := both.1.step steps
        refine ⟨next, fun gone => ?_⟩
        obtain already | ⟨exits, left⟩ := lost gone
        · exact both.2 already
        · exact left (allowed exits)
      · rintro s' action takes rfl
        exact meets s' takes
    exact kept.2 ⟨hung.1, .inr hung.2.2⟩
  · obtain ⟨before, after, split, reached⟩ := takes
    rw [split, execute_append, reached, Option.bind_some, execute] at runs
    cases next : s'.step nloops (.exit .child) with
    | none => simp [next] at runs
    | some gone =>
      simp only [next] at runs
      obtain ⟨kept, _, lost⟩ := (inv s' ⟨before, _, split, reached⟩).stepExit next
      obtain ⟨final, stays⟩ := kept.lost_run (lost.mpr left) runs
      exact final.lost_hangs stays

/-- Two iterations of the loops, the parent taking the post before the child is gone. -/
def inTime : List Action :=
  [.parent, .parent, .child, .child, .child, .parent, .parent, .exit .child]

/-- The child posts and exits before the parent comes to its `semop`. -/
def tooEarly : List Action := [.parent, .parent, .child, .child, .child, .exit .child, .parent]

theorem alternation_never_hangs_in_time :
    ∃ s, execute (State.step 2) (State.start 2) inTime = some s ∧
    s.updates = [.parent, .child] ∧ s.Alternates ∧ ¬s.Hung := by
  have evaluates : (execute (State.step 2) (State.start 2) inTime).map State.updates =
    some [.parent, .child] := by decide
  have passes : allTaken (State.step 2) (fun s action => decide (action = .exit .child →
      s.Settled)) (State.start 2) inTime =
      true := by decide
  obtain ⟨s, runs, updates⟩ := Option.map_eq_some_iff.mp evaluates
  obtain ⟨alternates, _, hangs, _⟩ := alternation_never_hangs 2 runs
  refine ⟨s, runs, updates, alternates, hangs fun s' takes => ?_⟩
  simpa using takes.of_allTaken passes

/-- The parent waits for good although every check has passed. -/
theorem parent_hangs : ∃ s, execute (State.step 2) (State.start 2) tooEarly = some s ∧ s.Hung := by
  have evaluates : (execute (State.step 2) (State.start 2) tooEarly).map (fun s => decide s.Hung) =
    some true := by decide
  obtain ⟨s, runs, hung⟩ := Option.map_eq_some_iff.mp evaluates
  exact ⟨s, runs, of_decide_eq_true hung⟩

end Apue.Exercises
