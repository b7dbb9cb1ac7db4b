import Apue.Base.Machine
import Apue.Base.Text

/-! # Parent and child that pass a byte through pipes

`devzero` with the `TELL` and `WAIT` functions of `ipc1/tellwait.c`: the parent tells the child with
a `p` through one pipe, and the child tells the parent with a `c` through the other.  Both processes
have all four descriptors open, so a `read` from an empty pipe sleeps and a `write` never fails.
`update` reads the shared counter and writes it back in two steps that nothing protects but the byte
on its way.
-/

namespace Apue.Ipc1

open Apue.Base

/-! ## The code -/

inductive Who where
  | parent
  | child
  deriving DecidableEq, Repr

inductive Pc where
  /-- `update`, before `*ptr` is read. -/
  | load
  /-- `update`, before the value plus 1 is stored. -/
  | store (value : Nat)
  /-- Before the comparison of what `update` returned. -/
  | check (counter : Nat)
  /-- Before the `write` of `TELL_CHILD` or `TELL_PARENT`. -/
  | tell
  /-- Before or in the `read` of `WAIT_CHILD` or `WAIT_PARENT`. -/
  | wait
  | exited
  /-- `err_quit`. -/
  | quit
  deriving DecidableEq, Repr

structure Proc where
  pc : Pc
  i : Nat
  deriving DecidableEq, Repr

structure State where
  area : Nat
  pfd1 : Bytes
  pfd2 : Bytes
  parent : Proc
  child : Proc
  /-- The updates that have been made, with the values that they return. -/
  updates : List (Who × Nat)
  deriving DecidableEq, Repr

def parentToken : UInt8 := 112

def childToken : UInt8 := 99

/-- The loop test of the parent, `i < NLOOPS`. -/
def parentLoop (nloops i : Nat) : Pc := if i < nloops then .load else .exited

/-- The loop test of the child, `i < NLOOPS + 1`. -/
def childLoop (nloops i : Nat) : Pc := if i < nloops + 1 then .wait else .exited

/-- After `TELL_WAIT` and `fork`. -/
def State.start (nloops : Nat) : State where
  area := 0
  pfd1 := []
  pfd2 := []
  parent := ⟨parentLoop nloops 0, 0⟩
  child := ⟨childLoop nloops 1, 1⟩
  updates := []

def State.stepParent (nloops : Nat) (s : State) : Option State :=
  let p := s.parent
  match p.pc with
  | .load => some { s with parent := { p with pc := .store s.area } }
  | .store value =>
    some { s with area := value + 1, parent := { p with pc := .check value }, updates := s.updates ++ [(.parent, value)] }
  | .check counter =>
    some { s with parent := { p with pc := if counter ≠ p.i then .quit else .tell } }
  | .tell => some { s with pfd1 := s.pfd1 ++ [parentToken], parent := { p with pc := .wait } }
  | .wait =>
    match s.pfd2 with
    -- the `read` sleeps while the pipe is empty
    | [] => none
    | c :: pfd2 =>
      let parent := if c ≠
        childToken then { p with pc := .quit } else ⟨parentLoop nloops (p.i + 2), p.i + 2⟩
      some { s with pfd2 := pfd2, parent := parent }
  | .exited | .quit => none

def State.stepChild (nloops : Nat) (s : State) : Option State :=
  let p := s.child
  match p.pc with
  | .wait =>
    match s.pfd1 with
    | [] => none
    | c :: pfd1 => some { s with pfd1 := pfd1, child := { p with pc := if c ≠ parentToken then .quit else .load } }
  | .load => some { s with child := { p with pc := .store s.area } }
  | .store value =>
    some { s with area := value + 1, child := { p with pc := .check value }, updates := s.updates ++
      [(.child, value)] }
  | .check counter =>
    some { s with child := { p with pc := if counter ≠ p.i then .quit else .tell } }
  -- the loop test is next, and behind it `WAIT_PARENT`
  | .tell =>
    some { s with pfd2 := s.pfd2 ++ [childToken], child := ⟨childLoop nloops (p.i + 2), p.i + 2⟩ }
  | .exited | .quit => none

def State.step (nloops : Nat) (s : State) : Who → Option State
  | .parent => s.stepParent nloops
  | .child => s.stepChild nloops

/-- The updates are made in turn, the parent's first, and each returns how many there were
before. -/
def Alternating (updates : List (Who × Nat)) : Prop :=
  ∀ k who value, updates[k]? = some (who, value) → value = k ∧
    who = if k % 2 = 0 then .parent else .child

/-- Asleep in `read`. -/
def State.Blocked (s : State) : Who → Prop
  | .parent => s.parent.pc = .wait ∧ s.pfd2 = []
  | .child => s.child.pc = .wait ∧ s.pfd1 = []

/-! ## Where the byte is -/

/-- From `update` to the end of `TELL`, with the values that are right in the turn that starts with
the counter at `i`. -/
inductive Turn (i area : Nat) : Pc → Prop where
  | load (counted : area = i) : Turn i area .load
  | store (counted : area = i) : Turn i area (.store i)
  | check (counted : area = i + 1) : Turn i area (.check i)
  | tell (counted : area = i + 1) : Turn i area .tell

/-- The phases of a run: whose turn it is, or to whom the byte is on its way. -/
inductive State.Phase (nloops : Nat) (s : State) : Prop where
  | parentTurn (more : s.parent.i < nloops) (rounds : s.child.i = s.parent.i + 1) (pfd1 : s.pfd1 = []) (pfd2 : s.pfd2 = [])
      (parent : Turn s.parent.i s.area s.parent.pc) (child : s.child.pc = .wait)
  | toChild (more : s.parent.i < nloops) (rounds : s.child.i = s.parent.i + 1) (pfd1 : s.pfd1 = [parentToken])
      (pfd2 : s.pfd2 = []) (parent : s.parent.pc = .wait) (child : s.child.pc =
        .wait) (counted : s.area = s.child.i)
  | childTurn (more : s.parent.i < nloops) (rounds : s.child.i = s.parent.i + 1) (pfd1 : s.pfd1 = []) (pfd2 : s.pfd2 = [])
      (parent : s.parent.pc = .wait) (child : Turn s.child.i s.area s.child.pc)
  | toParent (rounds : s.child.i = s.parent.i + 3) (pfd1 : s.pfd1 = []) (pfd2 : s.pfd2 = [childToken])
      (parent : s.parent.pc = .wait) (child : s.child.pc = childLoop nloops s.child.i)
        (counted : s.area = s.parent.i + 2)
  | finished (pfd1 : s.pfd1 = []) (pfd2 : s.pfd2 = []) (parent : s.parent.pc = .exited) (child : s.child.pc = .exited)

structure State.Inv (nloops : Nat) (s : State) : Prop where
  phase : s.Phase nloops
  updates : Alternating s.updates
  counted : s.area = s.updates.length
  /-- The parent's turns are the even ones. -/
  even : s.parent.i % 2 = 0

variable {nloops : Nat} {s s' : State}

theorem Alternating.append {updates : List (Who × Nat)} (alternating : Alternating updates)
    {who : Who}
    (next : who = if updates.length % 2 = 0 then .parent else .child) :
    Alternating (updates ++ [(who, updates.length)]) := by
  intro k other value found
  rw [List.getElem?_append] at found
  split at found
  · exact alternating k other value found
  -- the one update that is new
  · obtain rfl : k = updates.length := by
      have bound := (List.getElem?_eq_some_iff.mp found).1
      simp only [List.length_singleton] at bound
      omega
    obtain ⟨rfl, rfl⟩ : who = other ∧ updates.length = value := by simpa using found
    exact ⟨rfl, next⟩

/-- The parent goes round once more exactly when the child does. -/
theorem loops_cases (i : Nat) :
    (i < nloops ∧ parentLoop nloops i = .load ∧ childLoop nloops (i + 1) = .wait) ∨
    (parentLoop nloops i = .exited ∧ childLoop nloops (i + 1) = .exited) := by
  by_cases more : i < nloops
  · exact .inl ⟨more, if_pos more, if_pos (Nat.succ_lt_succ more)⟩
  · exact .inr ⟨if_neg more, if_neg fun less => more (Nat.lt_of_succ_lt_succ less)⟩

theorem State.start_inv (nloops : Nat) : (State.start nloops).Inv nloops := by
  refine ⟨?_, by simp [start, Alternating], rfl, rfl⟩
  obtain ⟨more, parent, child⟩ | ⟨parent, child⟩ := @loops_cases nloops 0
  · refine .parentTurn more rfl rfl rfl ?_ child
    simp only [start, parent]
    exact .load rfl
  · exact .finished rfl rfl parent child

theorem State.Inv.stepParent (inv : s.Inv nloops) (steps : s.stepParent nloops = some s') :
    s'.Inv nloops := by
  obtain ⟨phase, updates, counted, even⟩ := inv
  cases phase with
  | parentTurn more rounds pfd1 pfd2 parent child =>
    cases at_ : s.parent.pc with
    | load =>
      simp only [State.stepParent, at_, Option.some.injEq] at steps
      subst steps
      rw [at_] at parent
      obtain ⟨here⟩ := parent
      refine ⟨.parentTurn more rounds pfd1 pfd2 ?_ child, updates, counted, even⟩
      rw [here]
      exact .store rfl
    -- the value that was read is still the counter: nobody else is in `update`
    | store value =>
      simp only [State.stepParent, at_, Option.some.injEq] at steps
      subst steps
      rw [at_] at parent
      cases parent with
      | store here =>
        have length : s.updates.length = s.parent.i := counted.symm.trans here
        have turn : (Who.parent : Who) = if s.updates.length % 2 = 0 then .parent else .child := by
          rw [length, if_pos even]
        refine ⟨.parentTurn more rounds pfd1 pfd2 (.check rfl) child, ?_, ?_, even⟩
        · have longer := updates.append turn
          rwa [length] at longer
        · simp [length]
    | check counter =>
      simp only [State.stepParent, at_, Option.some.injEq] at steps
      subst steps
      rw [at_] at parent
      cases parent with
      | check here =>
        refine ⟨.parentTurn more rounds pfd1 pfd2 ?_ child, updates, counted, even⟩
        rw [if_neg (by simp)]
        exact .tell here
    | tell =>
      simp only [State.stepParent, at_, Option.some.injEq] at steps
      subst steps
      rw [at_] at parent
      cases parent with
      | tell here =>
        refine ⟨.toChild more rounds ?_ pfd2 rfl child ?_, updates, counted, even⟩
        · simp [pfd1]
        · simp only [here, rounds]
    -- a turn has no such places
    | wait => rw [at_] at parent; cases parent
    | exited => rw [at_] at parent; cases parent
    | quit => rw [at_] at parent; cases parent
  -- the byte is not for the parent, so it sleeps
  | toChild more rounds pfd1 pfd2 parent child => simp [State.stepParent, parent, pfd2] at steps
  | childTurn more rounds pfd1 pfd2 parent child => simp [State.stepParent, parent, pfd2] at steps
  | toParent rounds pfd1 pfd2 parent child here =>
    simp only [State.stepParent, parent, pfd2, ne_eq, not_true, if_false,
      Option.some.injEq] at steps
    subst steps
    have next : (s.parent.i + 2) % 2 = 0 := by omega
    have ahead : s.child.i = s.parent.i + 2 + 1 := rounds
    rw [ahead] at child
    -- the loop tests of both come out the same way, since the child is one ahead
    obtain ⟨more, loops, waits⟩ | ⟨loops, leaves⟩ := @loops_cases nloops (s.parent.i + 2)
    · refine ⟨.parentTurn more ahead pfd1 rfl ?_ (child.trans waits), updates, counted, next⟩
      rw [loops]
      exact .load here
    · exact ⟨.finished pfd1 rfl loops (child.trans leaves), updates, counted, next⟩
  | finished pfd1 pfd2 parent child => simp [State.stepParent, parent] at steps

theorem State.Inv.stepChild (inv : s.Inv nloops) (steps : s.stepChild nloops = some s') :
    s'.Inv nloops := by
  obtain ⟨phase, updates, counted, even⟩ := inv
  cases phase with
  -- no byte is on its way
  | parentTurn more rounds pfd1 pfd2 parent child => simp [State.stepChild, child, pfd1] at steps
  | toChild more rounds pfd1 pfd2 parent child here =>
    simp only [State.stepChild, child, pfd1, ne_eq, not_true, if_false, Option.some.injEq] at steps
    subst steps
    exact ⟨.childTurn more rounds rfl pfd2 parent (.load here), updates, counted, even⟩
  | childTurn more rounds pfd1 pfd2 parent child =>
    cases at_ : s.child.pc with
    | load =>
      simp only [State.stepChild, at_, Option.some.injEq] at steps
      subst steps
      rw [at_] at child
      obtain ⟨here⟩ := child
      refine ⟨.childTurn more rounds pfd1 pfd2 parent ?_, updates, counted, even⟩
      rw [here]
      exact .store rfl
    | store value =>
      simp only [State.stepChild, at_, Option.some.injEq] at steps
      subst steps
      rw [at_] at child
      cases child with
      | store here =>
        have length : s.updates.length = s.child.i := counted.symm.trans here
        have turn : (Who.child : Who) = if s.updates.length % 2 = 0 then .parent else .child := by
          rw [length, rounds, if_neg (by omega)]
        refine ⟨.childTurn more rounds pfd1 pfd2 parent (.check rfl), ?_, ?_, even⟩
        · have longer := updates.append turn
          rwa [length] at longer
        · simp [length]
    | check counter =>
      simp only [State.stepChild, at_, Option.some.injEq] at steps
      subst steps
      rw [at_] at child
      cases child with
      | check here =>
        refine ⟨.childTurn more rounds pfd1 pfd2 parent ?_, updates, counted, even⟩
        rw [if_neg (by simp)]
        exact .tell here
    | tell =>
      simp only [State.stepChild, at_, Option.some.injEq] at steps
      subst steps
      rw [at_] at child
      cases child with
      | tell here =>
        refine ⟨.toParent ?_ pfd1 ?_ parent rfl ?_, updates, counted, even⟩
        · simp only [rounds]
        · simp [pfd2]
        · simp only [here, rounds]
    -- a turn has no such places
    | wait => rw [at_] at child; cases child
    | exited => rw [at_] at child; cases child
    | quit => rw [at_] at child; cases child
  -- the child has left its loop or sleeps
  | toParent rounds pfd1 pfd2 parent child here =>
    unfold childLoop at child
    split at child <;> simp [State.stepChild, child, pfd1] at steps
  | finished pfd1 pfd2 parent child => simp [State.stepChild, child] at steps

theorem State.Inv.step (inv : s.Inv nloops) {who : Who} (steps : s.step nloops who = some s') :
    s'.Inv nloops := by
  cases who with
  | parent => exact inv.stepParent steps
  | child => exact inv.stepChild steps

/-! ## Every reachable state -/

theorem Turn.ne_quit {i area : Nat} {pc : Pc} (turn : Turn i area pc) :
    pc ≠ .quit ∧ pc ≠ .wait := by
  cases turn <;> simp

theorem State.Phase.checks (phase : s.Phase nloops) : s.parent.pc ≠ .quit ∧ s.child.pc ≠ .quit := by
  cases phase with
  | parentTurn more rounds pfd1 pfd2 parent child => exact ⟨parent.ne_quit.1, by simp [child]⟩
  | toChild more rounds pfd1 pfd2 parent child => simp [parent, child]
  | childTurn more rounds pfd1 pfd2 parent child => exact ⟨by simp [parent], child.ne_quit.1⟩
  | toParent rounds pfd1 pfd2 parent child =>
    unfold childLoop at child
    split at child <;> simp [parent, child]
  | finished pfd1 pfd2 parent child => simp [parent, child]

theorem State.Phase.token (phase : s.Phase nloops) : (s.pfd1 ++ s.pfd2).length ≤ 1 := by
  cases phase with
  | parentTurn more rounds pfd1 pfd2 => simp [pfd1, pfd2]
  | toChild more rounds pfd1 pfd2 => simp [pfd1, pfd2]
  | childTurn more rounds pfd1 pfd2 => simp [pfd1, pfd2]
  | toParent rounds pfd1 pfd2 => simp [pfd1, pfd2]
  | finished pfd1 pfd2 => simp [pfd1, pfd2]

theorem State.Phase.awake (phase : s.Phase nloops) : ¬(s.Blocked .parent ∧ s.Blocked .child) := by
  rintro ⟨⟨parentWaits, empty2⟩, childWaits, empty1⟩
  cases phase with
  | parentTurn more rounds pfd1 pfd2 parent child => exact parent.ne_quit.2 parentWaits
  | toChild more rounds pfd1 pfd2 parent child => simp [pfd1] at empty1
  | childTurn more rounds pfd1 pfd2 parent child => exact child.ne_quit.2 childWaits
  | toParent rounds pfd1 pfd2 parent child => simp [pfd2] at empty2
  | finished pfd1 pfd2 parent child => simp [parent] at parentWaits

/-- Whatever the order of the steps, the updates alternate and return what they should, no check
fails, at most one byte is on its way, and not both processes sleep. -/
theorem pipes_alternate (nloops : Nat) (actions : List Who) (s : State)
    (runs : execute (State.step nloops) (State.start nloops) actions = some s) :
    Alternating s.updates ∧ (s.parent.pc ≠ .quit ∧ s.child.pc ≠ .quit) ∧
      (s.pfd1 ++ s.pfd2).length ≤ 1 ∧
      ¬(s.Blocked .parent ∧ s.Blocked .child) := by
  have inv : s.Inv nloops :=
    (Visits.finish runs).invariant (State.Inv nloops) (fun _ _ => True) (State.start_inv nloops)
    (fun _ _ _ inv _ steps => inv.step steps) (fun _ _ _ => trivial)
  exact ⟨inv.updates, inv.phase.checks, inv.phase.token, inv.phase.awake⟩

/-- Three turns, with the last byte on its way to the child. -/
def threeTurns : List Who :=
  List.replicate 4 .parent ++ List.replicate 5 .child ++ List.replicate 5 .parent

theorem pipes_alternate_three : ∃ s, execute (State.step 4) (State.start 4) threeTurns = some s ∧
    s.updates = [(.parent, 0), (.child, 1), (.parent, 2)] ∧ s.pfd1 = [parentToken] ∧
      Alternating s.updates :=
  ⟨_, rfl, rfl, rfl, (pipes_alternate 4 threeTurns _ rfl).1⟩

end Apue.Ipc1
