import Apue.Base.Machine

/-! # Parent and child that wait for each other's signals

`devzero` lets a parent and its child update a counter in turn: each tells the other with a signal
and waits in `WAIT_CHILD` or `WAIT_PARENT` of `lib/tellwait.c`.  `TELL_WAIT` blocks both signals
before the fork, so in the first round a signal stays pending until `sigsuspend`.  The end of every
wait sets the mask back to what it was before `TELL_WAIT`.  If that mask lets the signal through, in
the second round it can be delivered between the test of `sigflag` and `sigsuspend`, and the process
sleeps for good.

The parent is sent `SIGUSR2` only and the child `SIGUSR1` only; `blocked`, `oldmask` and `pending`
are about that signal.
-/

namespace Apue.Lib.TellWait

open Apue.Base

/-! ## The code -/

inductive Who where
  | parent
  | child
  deriving DecidableEq, Repr

def Who.other : Who → Who
  | .parent => .child
  | .child => .parent

inductive Pc where
  | update
  /-- Before `TELL_CHILD` or `TELL_PARENT`. -/
  | tell
  /-- Before the test of `while (sigflag == 0)`. -/
  | test
  /-- The test has found 0; before `sigsuspend`. -/
  | suspend
  | suspended
  /-- Before `sigflag = 0`. -/
  | clear
  /-- Before `sigprocmask(SIG_SETMASK, &oldmask, NULL)`. -/
  | restore
  | exited
  deriving DecidableEq, Repr

structure Proc where
  pc : Pc
  /-- The rounds of the loop that are finished. -/
  round : Nat
  sigflag : Bool
  blocked : Bool
  oldmask : Bool
  pending : Bool
  deriving DecidableEq, Repr

structure State where
  counter : Nat
  parent : Proc
  child : Proc
  deriving DecidableEq, Repr

def State.proc (s : State) : Who → Proc
  | .parent => s.parent
  | .child => s.child

def State.set (s : State) (who : Who) (p : Proc) : State :=
  match who with
  | .parent => { s with parent := p }
  | .child => { s with child := p }

/-- Where a round begins, if there is one more. -/
def enter (rounds : Nat) (who : Who) (round : Nat) : Pc :=
  if round < rounds then
    match who with
    | .parent => .update
    | .child => .test
  else .exited

/-- The value of the counter that the process expects. -/
def expected : Who → Nat → Nat
  | .parent, round => 2 * round
  | .child, round => 2 * round + 1

/-- After `TELL_WAIT` and `fork`; the masks are those before `TELL_WAIT`. -/
def State.start (rounds : Nat) (parentMask childMask : Bool) : State where
  counter := 0
  parent := ⟨enter rounds .parent 0, 0, false, true, parentMask, false⟩
  child := ⟨enter rounds .child 0, 0, false, true, childMask, false⟩

inductive Action where
  | run (who : Who)
  /-- A pending signal is delivered and the handler runs. -/
  | deliver (who : Who)
  deriving DecidableEq, Repr

def Proc.nextRound (rounds : Nat) (who : Who) (p : Proc) : Proc :=
  { p with pc := enter rounds who (p.round + 1), round := p.round + 1 }

/-- The end of a wait. -/
def Proc.restored (rounds : Nat) (who : Who) (p : Proc) : Proc :=
  let p := { p with blocked := p.oldmask }
  match who with
  | .parent => p.nextRound rounds .parent
  | .child => { p with pc := .update }

def State.step (rounds : Nat) (s : State) : Action → Option State
  | .run who =>
    let p := s.proc who
    match p.pc with
    | .update =>
      let pc := if s.counter = expected who p.round then .tell else .exited
      some (State.set { s with counter := s.counter + 1 } who { p with pc := pc })
    | .tell =>
      let next := match who with
        | .parent => { p with pc := .test }
        | .child => p.nextRound rounds .child
      some ((s.set who next).set who.other { s.proc who.other with pending := true })
    | .test => some (s.set who { p with pc := if p.sigflag then .clear else .suspend })
    | .suspend => some (s.set who { p with pc := .suspended })
    | .clear => some (s.set who { p with pc := .restore, sigflag := false })
    | .restore => some (s.set who (p.restored rounds who))
    | .suspended | .exited => none
  | .deliver who =>
    let p := s.proc who
    -- `sigsuspend` lets every signal through, and returns after the handler with the mask it found
    if p.pc = .suspended then
      if p.pending then some (s.set who { p with pending := false, sigflag := true, pc := .test }) else none
    else if p.pc ≠ .exited ∧ p.pending ∧ ¬p.blocked then
      some (s.set who { p with pending := false, sigflag := true })
    else none

/-- Asleep with the flag set and no signal to come. -/
def Proc.Lost (p : Proc) : Prop := p.pc = .suspended ∧ p.sigflag = true ∧ p.pending = false

instance (p : Proc) : Decidable p.Lost := inferInstanceAs (Decidable (_ ∧ _ ∧ _))

/-! ## When no signal is lost -/

@[simp] theorem State.proc_set (s : State) (who : Who) (p : Proc) : (s.set who p).proc who = p := by
  cases who <;> rfl

theorem State.proc_set_other (s : State) {who other : Who} (p : Proc) (differ : other ≠ who) :
    (s.set who p).proc other = s.proc other := by
  cases who <;> cases other <;> first | rfl | exact absurd rfl differ

/-- The process is in its wait, or on its way there without another wait before. -/
def Proc.Before (who : Who) (p : Proc) : Prop :=
  match p.pc with
  | .update | .tell => who = .parent
  | .exited => False
  | _ => True

/-- The invariant of one process: up to its wait the signal is blocked, and from the test on the
flag is 0. -/
structure Proc.Safe (rounds : Nat) (who : Who) (p : Proc) : Prop where
  kept : rounds ≤ 1 ∨ p.oldmask = true
  masked : p.oldmask = true → p.blocked = true
  once : rounds ≤ 1 → p.Before who → p.blocked = true
  sleeping : p.pc = .suspend ∨ p.pc = .suspended → p.sigflag = false

theorem start_safe {rounds : Nat} {mask : Bool} (kept : rounds ≤ 1 ∨ mask = true) (who : Who) :
    (⟨enter rounds who 0, 0, false, true, mask, false⟩ : Proc).Safe rounds who :=
  ⟨kept, fun _ => rfl, fun _ _ => rfl, fun _ => rfl⟩

namespace Proc.Safe

variable {rounds : Nat} {who : Who} {p : Proc}

theorem blocked (safe : p.Safe rounds who) (before : p.Before who) : p.blocked = true := by
  obtain single | masked := safe.kept
  · exact safe.once single before
  · exact safe.masked masked

theorem pend (safe : p.Safe rounds who) : Proc.Safe rounds who { p with pending := true } :=
  ⟨safe.kept, safe.masked, safe.once, safe.sleeping⟩

/-- The process goes on to a place that is before its wait only if it was so already. -/
theorem goTo (safe : p.Safe rounds who) {pc : Pc} {sigflag pending : Bool}
    (before : Proc.Before who { p with pc := pc } → p.Before who)
    (sleeping : pc = .suspend ∨ pc = .suspended → sigflag = false) :
    Proc.Safe rounds who { p with pc := pc, sigflag := sigflag, pending := pending } :=
  ⟨safe.kept, safe.masked, fun single later => safe.once single (before later), sleeping⟩

/-- There is no second round, or the signal stays blocked in it. -/
theorem nextRound (safe : p.Safe rounds who) : (p.nextRound rounds who).Safe rounds who := by
  refine ⟨safe.kept, safe.masked, fun single before => ?_, fun asleep => ?_⟩
  · have ended : enter rounds who (p.round + 1) = .exited := if_neg (by omega)
    simp [Proc.nextRound, Proc.Before, ended] at before
  · have awake : enter rounds who (p.round + 1) ≠ .suspend ∧
        enter rounds who (p.round + 1) ≠ .suspended := by
      unfold enter
      cases who <;> split <;> simp
    obtain here | here := asleep
    · exact absurd here awake.1
    · exact absurd here awake.2

/-- The end of the wait sets the old mask. -/
theorem restored (safe : p.Safe rounds who) : (p.restored rounds who).Safe rounds who := by
  cases who with
  | parent =>
    refine ⟨safe.kept, id, fun single before => ?_, fun asleep => ?_⟩
    · have ended : enter rounds .parent (p.round + 1) = .exited := if_neg (by omega)
      simp [Proc.restored, Proc.nextRound, Proc.Before, ended] at before
    · simp only [Proc.restored, Proc.nextRound, enter] at asleep
      split at asleep <;> simp at asleep
  | child =>
    exact ⟨safe.kept, id, fun _ before => by simp [Proc.restored, Proc.Before] at before,
      fun asleep => by simp [Proc.restored] at asleep⟩

end Proc.Safe

/-- Both processes are safe. -/
def State.Safe (rounds : Nat) (s : State) : Prop := ∀ who, (s.proc who).Safe rounds who

theorem State.Safe.set {rounds : Nat} {s : State} (safe : s.Safe rounds) {who : Who} {p : Proc}
    (new : p.Safe rounds who) :
    (s.set who p).Safe rounds := by
  intro other
  by_cases same : other = who
  · subst same
    rwa [State.proc_set]
  · rw [State.proc_set_other s p same]
    exact safe other

theorem State.Safe.step {rounds : Nat} {s s' : State} (safe : s.Safe rounds) {action : Action}
    (steps : s.step rounds action = some s') : s'.Safe rounds := by
  cases action with
  | run who =>
    have own := safe who
    cases at_ : (s.proc who).pc with
    | update =>
      simp only [State.step, at_, Option.some.injEq] at steps
      subst steps
      have moved : State.Safe rounds { s with counter := s.counter + 1 } := safe
      refine moved.set (own.goTo (fun before => ?_) (fun asleep => ?_))
      · split at before <;> simp_all [Proc.Before]
      · split at asleep <;> simp at asleep
    | tell =>
      simp only [State.step, at_, Option.some.injEq] at steps
      subst steps
      refine State.Safe.set (State.Safe.set safe ?_) (safe who.other).pend
      cases who with
      | parent => exact own.goTo (fun _ => by simp [Proc.Before, at_]) (by simp)
      | child => exact own.nextRound
    | test =>
      simp only [State.step, at_, Option.some.injEq] at steps
      subst steps
      refine safe.set (own.goTo (fun _ => by simp [Proc.Before, at_]) (fun asleep => ?_))
      cases flag : (s.proc who).sigflag <;> simp_all
    | suspend =>
      simp only [State.step, at_, Option.some.injEq] at steps
      subst steps
      exact safe.set (own.goTo (fun _ => by simp [Proc.Before, at_]) (fun _ =>
        own.sleeping (.inl at_)))
    | clear =>
      simp only [State.step, at_, Option.some.injEq] at steps
      subst steps
      exact safe.set (own.goTo (fun _ => by simp [Proc.Before, at_]) (by simp))
    | restore =>
      simp only [State.step, at_, Option.some.injEq] at steps
      subst steps
      exact safe.set own.restored
    | suspended => simp [State.step, at_] at steps
    | exited => simp [State.step, at_] at steps
  | deliver who =>
    have own := safe who
    simp only [State.step] at steps
    split at steps
    · rename_i asleep
      split at steps <;> simp only [Option.some.injEq, reduceCtorEq] at steps
      subst steps
      exact safe.set (own.goTo (fun _ => by simp [Proc.Before, asleep]) (by simp))
    · rename_i awake
      split at steps <;> simp only [Option.some.injEq, reduceCtorEq] at steps
      rename_i delivered
      subst steps
      -- just before `sigsuspend` the signal is blocked
      refine safe.set (own.goTo id (fun asleep => ?_))
      obtain here | here := asleep
      · have masked := own.blocked (by simp [Proc.Before, here])
        simp [masked] at delivered
      · exact absurd here awake

theorem State.start_safe {rounds : Nat} {parentMask childMask : Bool}
    (kept : rounds ≤ 1 ∨ parentMask = true ∧ childMask = true) :
    (State.start rounds parentMask childMask).Safe rounds
  | .parent => TellWait.start_safe (kept.imp_right And.left) .parent
  | .child => TellWait.start_safe (kept.imp_right And.right) .child

/-! ## The signal that is lost -/

/-- The first round of both processes, and the second one of the parent up to its test; or the
child's. -/
def toSecondWait : Who → List Action
  | .parent =>
    [.run .parent, .run .parent, .run .child, .run .child, .deliver .child, .run .child,
      .run .child, .run .child,
      .run .child, .run .child, .run .parent, .run .parent, .deliver .parent, .run .parent,
        .run .parent, .run .parent,
      .run .parent, .run .parent, .run .parent, .run .child, .run .child, .deliver .child,
        .run .child, .run .child,
      .run .child, .run .child, .run .child, .deliver .parent, .run .parent]
  | .child =>
    [.run .parent, .run .parent, .run .child, .run .child, .deliver .child, .run .child,
      .run .child, .run .child,
      .run .child, .run .child, .run .parent, .run .parent, .deliver .parent, .run .parent,
        .run .parent, .run .parent,
      .run .child, .run .parent, .run .parent, .deliver .child, .run .child]

/-- The other process answers before `sigsuspend`, and the answer is delivered at once. -/
theorem signal_lost (rounds : Nat) (parentMask childMask : Bool) (who : Who)
    (unblocked : (match who with | .parent => parentMask | .child => childMask) = false) :
    ∃ s, execute (State.step (rounds + 2)) (State.start (rounds + 2) parentMask childMask)
      (toSecondWait who) = some s ∧
      (s.proc who).Lost := by
  cases who with
  | parent =>
    dsimp only at unblocked
    subst unblocked
    cases childMask <;> exact ⟨_, rfl, rfl, rfl, rfl⟩
  | child =>
    dsimp only at unblocked
    subst unblocked
    cases parentMask <;> exact ⟨_, rfl, rfl, rfl, rfl⟩

/-- No process ever sleeps on a signal that has come, exactly when there is one round at most or the
two signals were blocked before `TELL_WAIT` already. -/
theorem no_signal_lost_iff (rounds : Nat) (parentMask childMask : Bool) :
    (∀ actions s, execute (State.step rounds) (State.start rounds parentMask childMask)
      actions = some s →
      ∀ who, ¬(s.proc who).Lost) ↔ rounds ≤ 1 ∨ parentMask = true ∧ childMask = true := by
  constructor
  · intro never
    by_contra otherwise
    simp only [not_or, not_and_or, Bool.not_eq_true] at otherwise
    obtain ⟨several, parent | child⟩ := otherwise
    · obtain ⟨s, runs, lost⟩ := signal_lost (rounds - 2) parentMask childMask .parent parent
      rw [show rounds - 2 + 2 = rounds by omega] at runs
      exact never _ s runs .parent lost
    · obtain ⟨s, runs, lost⟩ := signal_lost (rounds - 2) parentMask childMask .child child
      rw [show rounds - 2 + 2 = rounds by omega] at runs
      exact never _ s runs .child lost
  · intro kept actions s runs who lost
    have safe : s.Safe rounds :=
      (Visits.finish runs).invariant (State.Safe rounds) (fun _ _ => True)
      (State.start_safe kept) (fun _ _ _ safe _ steps => safe.step steps) (fun _ _ _ => trivial)
    have zero : (s.proc who).sigflag = false := (safe who).sleeping (.inr lost.1)
    rw [lost.2.1] at zero
    contradiction

/-- With the 500 rounds of `devzero` and nothing blocked before, the parent can be lost in its
second wait. -/
theorem devzero_sleeps :
    ∃ s, execute (State.step 500) (State.start 500 false false) (toSecondWait .parent) = some s ∧
    (s.proc .parent).Lost := signal_lost 498 false false .parent rfl

end Apue.Lib.TellWait
