import Apue.Base.Machine
import Apue.Base.Relay
import Apue.Base.Signals

/-! # The two processes of `pty`

In `loop` the child copies standard input to the master of a pseudo terminal, and the parent copies
what comes back to standard output.  At the end of the input the child sends `SIGTERM` to the
parent, unless `ignoreeof` is set; a parent that stops without this signal sends it to the child.

Each process is in front of one system call at a time, and the action that takes it further says
what the call returns.  The child has the default action for `SIGTERM`, the parent has it until
`signal_intr`; anybody else may send it too.
-/

namespace Apue.Pty

open Apue.Base

/-! ## The code -/

def buffsize : Nat := 512

/-- The flags with which `signal_intr` installs a handler. -/
def signalIntr : Nat := saInterrupt

inductive Ending where
  | exited (code : Int)
  | terminated
  deriving DecidableEq, Repr

/-- What the child does next. -/
inductive Child where
  | read
  /-- In `writen`. -/
  | write
  /-- At the end of the input. -/
  | notify
  | exit
  | gone (ending : Ending)
  deriving DecidableEq, Repr

def Child.alive : Child → Bool
  | .gone _ => false
  | _ => true

/-- What the parent does next. -/
inductive Parent where
  | signalIntr
  | read
  /-- `read` has been called. -/
  | reading
  /-- In `writen`. -/
  | write
  /-- `if (sigcaught == 0)` -/
  | test
  | kill
  /-- Back in `main`, before `exit(0)`. -/
  | returned
  | gone (ending : Ending)
  deriving DecidableEq, Repr

def Parent.alive : Parent → Bool
  | .gone _ => false
  | _ => true

structure State where
  ignoreeof : Int
  child : Child
  parent : Parent
  /-- Standard input, the buffer of the child and the terminal. -/
  input : Relay UInt8
  /-- The terminal, the buffer of the parent and standard output. -/
  output : Relay UInt8
  inputEnds : Bool
  outputEnds : Bool
  /-- The flags with which `sig_term` is the parent's action for `SIGTERM`. -/
  handler : Option Nat
  sigcaught : Bool
  /-- `SIGTERM` is pending. -/
  parentPending : Bool
  childPending : Bool

inductive Action where
  | type (bytes : List UInt8)
  | endInput
  | print (bytes : List UInt8)
  | endOutput
  /-- Another process sends `SIGTERM`. -/
  | killChild
  | killParent
  /-- The next call of the child returns. -/
  | child (result : Int)
  /-- The next call of the parent returns. -/
  | parent (result : Int)
  | deliverChild
  | deliverParent
  deriving DecidableEq, Repr

namespace State

def start (ignoreeof : Int) : State where
  ignoreeof := ignoreeof
  child := .read
  parent := .signalIntr
  input := .empty
  output := .empty
  inputEnds := false
  outputEnds := false
  handler := none
  sigcaught := false
  parentPending := false
  childPending := false

def childStep (s : State) (result : Int) : Option State :=
  match s.child with
  | .read =>
    if result < 0 then some { s with child := .gone (.exited 1) }
    else if result = 0 then
      if s.inputEnds = true ∧ s.input.unread = [] then some { s with child := .notify } else none
    else if result.toNat ≤ buffsize ∧ result.toNat ≤ s.input.unread.length then
      some { s with input := s.input.read result.toNat, child := .write }
    else none
  | .write =>
    -- an error, or nothing written, ends `writen` too early
    if result ≤ 0 then some { s with child := .gone (.exited 1) }
    else if result.toNat ≤ s.input.buffer.length then
      some { s with
        input := s.input.write result.toNat
        child := if result.toNat = s.input.buffer.length then .read else .write }
    else none
  | .notify => some { s with
      parentPending := s.parentPending || decide (s.ignoreeof = 0) && s.parent.alive
      child := .exit }
  | .exit => some { s with child := .gone (.exited 0) }
  | .gone _ => none

/-- The parent, if the flags in place of `signal_intr` are these. -/
def parentStep (flags : Nat) (s : State) (result : Int) : Option State :=
  match s.parent with
  | .signalIntr =>
    if result < 0 then some { s with parent := .gone (.exited 1) } else some {
      s with handler := some flags, parent := .read }
  | .read => some { s with parent := .reading }
  | .reading =>
    if result < 0 then some { s with parent := .test }
    else if result = 0 then
      if s.outputEnds = true ∧ s.output.unread = [] then some { s with parent := .test } else none
    else if result.toNat ≤ buffsize ∧ result.toNat ≤ s.output.unread.length then
      some { s with output := s.output.read result.toNat, parent := .write }
    else none
  | .write =>
    if result ≤ 0 then some { s with parent := .gone (.exited 1) }
    else if result.toNat ≤ s.output.buffer.length then
      some { s with
        output := s.output.write result.toNat
        parent := if result.toNat = s.output.buffer.length then .read else .write }
    else none
  | .test => some { s with parent := if s.sigcaught = true then .returned else .kill }
  | .kill => some { s with childPending := s.childPending || s.child.alive, parent := .returned }
  | .returned => some { s with parent := .gone (.exited 0) }
  | .gone _ => none

def stepWith (flags : Nat) (s : State) : Action → Option State
  | .type bytes =>
    if s.inputEnds = true then none else some { s with input := s.input.supply bytes }
  | .endInput => some { s with inputEnds := true }
  | .print bytes =>
    if s.outputEnds = true then none else some { s with output := s.output.supply bytes }
  | .endOutput => some { s with outputEnds := true }
  | .killChild => some { s with childPending := s.childPending || s.child.alive }
  | .killParent => some { s with parentPending := s.parentPending || s.parent.alive }
  | .child result => s.childStep result
  | .parent result => s.parentStep flags result
  | .deliverChild =>
    if s.childPending = true ∧ s.child.alive = true then
      some { s with childPending := false, child := .gone .terminated }
    else none
  | .deliverParent =>
    if s.parentPending = true ∧ s.parent.alive = true then
      match s.handler with
      | some flags =>
        -- a `read` that waits is interrupted, and with `SA_RESTART` it is begun again
        some { s with
          parentPending := false
          sigcaught := true
          parent := if s.parent = .reading ∧ flags &&& saRestart = 0 then .test else s.parent }
      | none => some { s with parentPending := false, parent := .gone .terminated }
    else none

def step : State → Action → Option State := stepWith signalIntr

end State

/-! ## What holds in every state -/

/-- What the child has read it has written. -/
def Child.flushed : Child → Bool
  | .read | .notify | .exit | .gone (.exited 0) => true
  | _ => false

/-- The child has read the end of its input. -/
def Child.finished : Child → Bool
  | .notify | .exit | .gone (.exited 0) => true
  | _ => false

/-- A child that is gone has finished or has left bytes behind. -/
theorem Child.flushed_gone (ending : Ending) :
    (Child.gone ending).flushed = (Child.gone ending).finished := by
  cases ending with
  | exited code => by_cases zero : code = 0 <;> simp [flushed, finished, zero]
  | terminated => rfl

/-- The child will not read or write any more. -/
def Child.leaving : Child → Bool
  | .exit | .gone _ => true
  | _ => false

/-- What the parent has read it has written. -/
def Parent.flushed : Parent → Bool
  | .write | .gone (.exited 1) | .gone .terminated => false
  | _ => true

/-- `loop` has returned. -/
def Parent.back : Parent → Bool
  | .returned | .gone (.exited 0) => true
  | _ => false

namespace State

/-- All of the input has come out of the child. -/
def Copied (s : State) : Prop := s.inputEnds = true ∧ s.input.unread = [] ∧ s.input.buffer = []

structure Inv (s : State) : Prop where
  childFlushed : s.child.flushed = true → s.input.buffer = []
  parentFlushed : s.parent.flushed = true → s.output.buffer = []
  finished : s.child.finished = true → s.Copied
  early : s.parent = .gone .terminated → s.handler = none

/-- The parent has been sent `SIGTERM`. -/
def Told (s : State) : Prop :=
  s.parentPending = true ∨ s.sigcaught = true ∨ s.parent = .gone .terminated

/-- What holds if nobody but the child sends the parent `SIGTERM`. -/
structure Among (s : State) : Prop where
  told : s.Told → s.ignoreeof = 0 ∧ s.Copied ∧ s.child.leaving = true
  back : s.parent.back = true → s.child.leaving = true ∨ s.childPending = true

theorem start_inv (ignoreeof : Int) : (start ignoreeof).Inv where
  childFlushed _ := rfl
  parentFlushed _ := rfl
  finished impossible := nomatch impossible
  early impossible := nomatch impossible

theorem start_among (ignoreeof : Int) : (start ignoreeof).Among where
  told impossible := by simp [Told, start] at impossible
  back impossible := nomatch impossible

variable {s s' : State} {flags : Nat} {result : Int}

/-! ## What a step of either process does -/

/-- The state after the test of `ignoreeof`. -/
def notified (s : State) : State :=
  { s with parentPending := s.parentPending || decide (s.ignoreeof = 0) && s.parent.alive, child := .exit }

/-- What a step of the child does. -/
inductive ChildMoves (s : State) : State → Prop where
  | copies {child : Child} {input : Relay UInt8} (busy : s.child.leaving = false)
      (flushed : child.flushed = true → input.buffer = [])
      (finished : child.finished = true → s.inputEnds = true ∧ input.unread = [] ∧
        input.buffer = [])
      (stream : input.stream = s.input.stream) :
        ChildMoves s { s with child := child, input := input }
  | notifies (here : s.child = .notify) : ChildMoves s s.notified
  | ends (ending : Ending) (finished : ending = .exited 0 → s.Copied) : ChildMoves s { s with child := .gone ending }

/-- What a step of the parent does. -/
inductive ParentMoves (s : State) : State → Prop where
  | moves {parent : Parent} {output : Relay UInt8} {handler : Option Nat} {pending : Bool}
      (there : parent ≠ .gone .terminated) (flushed : parent.flushed = true → output.buffer = [])
      (kept : s.childPending = true → pending = true)
      (back : parent.back = true → s.parent.back = true ∨ s.sigcaught = true ∨
        s.child.leaving = true ∨ pending = true)
      (stream : output.stream = s.output.stream) :
      ParentMoves s { s with parent := parent, output := output, handler := handler, childPending := pending }

theorem childMoves_of_childStep (inv : s.Inv) (steps : s.childStep result = some s') :
    ChildMoves s s' := by
  cases here : s.child with
  | read =>
    simp only [State.childStep, here] at steps
    have busy : s.child.leaving = false := by rw [here]; rfl
    have done : s.input.buffer = [] := inv.childFlushed (by rw [here]; rfl)
    split at steps
    · cases steps
      exact .ends (.exited 1) nofun
    · split at steps
      · obtain ⟨⟨ends, dry⟩, same⟩ := Option.ite_none_right_eq_some.1 steps
        cases same
        exact .copies busy (fun _ => done) (fun _ => ⟨ends, dry, done⟩) rfl
      · obtain ⟨-, same⟩ := Option.ite_none_right_eq_some.1 steps
        cases same
        exact .copies busy nofun nofun (Relay.stream_read done)
  | write =>
    simp only [State.childStep, here] at steps
    have busy : s.child.leaving = false := by rw [here]; rfl
    split at steps
    · cases steps
      exact .ends (.exited 1) nofun
    · obtain ⟨-, same⟩ := Option.ite_none_right_eq_some.1 steps
      cases same
      apply ChildMoves.copies busy
      · intro flushed
        split at flushed
        next all => exact List.drop_eq_nil_of_le (by omega)
        next => cases flushed
      · intro finished
        split at finished
        · cases finished
        · cases finished
      · exact Relay.stream_write
  | notify =>
    simp only [State.childStep, here] at steps
    cases steps
    exact .notifies here
  | exit =>
    simp only [State.childStep, here] at steps
    cases steps
    exact .ends (.exited 0) fun _ => inv.finished (by rw [here]; rfl)
  | gone ending => simp only [State.childStep, here, reduceCtorEq] at steps

theorem parentMoves_of_parentStep (inv : s.Inv) (steps : s.parentStep flags result = some s') :
    ParentMoves s s' := by
  cases here : s.parent with
  | signalIntr =>
    simp only [State.parentStep, here] at steps
    have done : s.output.buffer = [] := inv.parentFlushed (by rw [here]; rfl)
    split at steps
    · cases steps
      exact .moves nofun nofun id nofun rfl
    · cases steps
      exact .moves nofun (fun _ => done) id nofun rfl
  | read =>
    simp only [State.parentStep, here] at steps
    have done : s.output.buffer = [] := inv.parentFlushed (by rw [here]; rfl)
    cases steps
    exact .moves nofun (fun _ => done) id nofun rfl
  | reading =>
    simp only [State.parentStep, here] at steps
    have done : s.output.buffer = [] := inv.parentFlushed (by rw [here]; rfl)
    split at steps
    · cases steps
      exact .moves nofun (fun _ => done) id nofun rfl
    · split at steps
      · obtain ⟨-, same⟩ := Option.ite_none_right_eq_some.1 steps
        cases same
        exact .moves nofun (fun _ => done) id nofun rfl
      · obtain ⟨-, same⟩ := Option.ite_none_right_eq_some.1 steps
        cases same
        exact .moves nofun nofun id nofun (Relay.stream_read done)
  | write =>
    simp only [State.parentStep, here] at steps
    split at steps
    · cases steps
      exact .moves nofun nofun id nofun rfl
    · obtain ⟨-, same⟩ := Option.ite_none_right_eq_some.1 steps
      cases same
      apply ParentMoves.moves
      · split <;> nofun
      · intro flushed
        split at flushed
        next all => exact List.drop_eq_nil_of_le (by omega)
        next => cases flushed
      · exact id
      · intro returned
        split at returned <;> cases returned
      · exact Relay.stream_write
  | test =>
    simp only [State.parentStep, here] at steps
    have done : s.output.buffer = [] := inv.parentFlushed (by rw [here]; rfl)
    cases steps
    apply ParentMoves.moves
    · split <;> nofun
    · exact fun _ => done
    · exact id
    · intro returned
      split at returned
      next caught => exact .inr (.inl caught)
      next => cases returned
    · rfl
  | kill =>
    simp only [State.parentStep, here] at steps
    have done : s.output.buffer = [] := inv.parentFlushed (by rw [here]; rfl)
    have heard : s.child.leaving = true ∨ (s.childPending || s.child.alive) = true := by
      cases s.child with
      | gone ending => exact .inl rfl
      | _ => exact .inr (Bool.or_true _)
    cases steps
    exact .moves nofun (fun _ => done) (fun pending => by simp [pending]) (fun _ =>
      .inr (.inr heard)) rfl
  | returned =>
    simp only [State.parentStep, here] at steps
    have done : s.output.buffer = [] := inv.parentFlushed (by rw [here]; rfl)
    cases steps
    exact .moves nofun (fun _ => done) id (fun _ => .inl (by rw [here]; rfl)) rfl
  | gone ending => simp only [State.parentStep, here, reduceCtorEq] at steps

/-- The child ends. -/
theorem Inv.childGone (inv : s.Inv) (ending : Ending) (finished : ending = .exited 0 → s.Copied)
    (pending : Bool) :
    Inv { s with child := .gone ending, childPending := pending } := by
  have zero {code : Int} (flushed : (Child.gone (.exited code)).flushed = true) : code = 0 := by
    by_contra other
    simp [Child.flushed, other] at flushed
  have copied (flushed : (Child.gone ending).flushed = true) : s.Copied := by
    cases ending with
    | exited code => exact finished (by rw [zero flushed])
    | terminated => cases flushed
  exact ⟨fun flushed => (copied flushed).2.2, inv.parentFlushed,
    fun isFinished => copied (by rwa [Child.flushed_gone]), inv.early⟩

theorem Inv.childMoves (inv : s.Inv) (moves : ChildMoves s s') : s'.Inv := by
  cases moves with
  | copies busy flushed finished => exact ⟨flushed, inv.parentFlushed, finished, inv.early⟩
  | notifies here =>
    have copied : s.Copied := inv.finished (by rw [here]; rfl)
    exact ⟨fun _ => copied.2.2, inv.parentFlushed, fun _ => copied, inv.early⟩
  | ends ending finished => exact inv.childGone ending finished s.childPending

theorem Inv.parentMoves (inv : s.Inv) (moves : ParentMoves s s') : s'.Inv := by
  cases moves with
  | moves there flushed =>
    exact ⟨inv.childFlushed, flushed, inv.finished, fun terminated => absurd terminated there⟩

theorem Inv.step {action : Action} (inv : s.Inv) (steps : s.stepWith flags action = some s') :
    s'.Inv := by
  cases action with
  | type bytes =>
    obtain ⟨goesOn, same⟩ := Option.ite_none_left_eq_some.1 steps
    cases same
    exact ⟨inv.childFlushed, inv.parentFlushed, fun finished => absurd (inv.finished finished).1
      goesOn, inv.early⟩
  | endInput =>
    cases steps
    exact ⟨inv.childFlushed, inv.parentFlushed,
      fun finished => ⟨rfl, (inv.finished finished).2⟩, inv.early⟩
  | print bytes =>
    obtain ⟨-, same⟩ := Option.ite_none_left_eq_some.1 steps
    cases same
    exact ⟨inv.childFlushed, inv.parentFlushed, inv.finished, inv.early⟩
  | endOutput | killChild | killParent =>
    cases steps
    exact ⟨inv.childFlushed, inv.parentFlushed, inv.finished, inv.early⟩
  | child result => exact inv.childMoves (childMoves_of_childStep inv steps)
  | parent result => exact inv.parentMoves (parentMoves_of_parentStep inv steps)
  | deliverChild =>
    obtain ⟨-, same⟩ := Option.ite_none_right_eq_some.1 steps
    cases same
    exact inv.childGone .terminated nofun false
  | deliverParent =>
    obtain ⟨-, delivered⟩ := Option.ite_none_right_eq_some.1 steps
    split at delivered
    next =>
      cases delivered
      refine ⟨inv.childFlushed, ?_, inv.finished, ?_⟩
      · split
        next here => exact fun _ => inv.parentFlushed (by rw [here.1]; rfl)
        next => exact inv.parentFlushed
      · intro ended
        split at ended
        · cases ended
        · exact inv.early ended
    next unset =>
      cases delivered
      exact ⟨inv.childFlushed, nofun, inv.finished, fun _ => unset⟩

/-! ## Nobody else sends the signal -/

theorem Among.not_told (among : s.Among) (busy : s.child.leaving = false) : ¬s.Told := by
  intro told
  have leaving := (among.told told).2.2
  rw [busy] at leaving
  cases leaving

/-- The child is gone, or about to exit. -/
theorem Among.of_leaving {parent : Parent} {parentPending sigcaught childPending : Bool}
    (asked : s.ignoreeof = 0)
    (copied : s.Copied) (leaving : s.child.leaving = true) :
    Among { s with parent := parent, parentPending := parentPending, sigcaught := sigcaught, childPending := childPending } :=
  ⟨fun _ => ⟨asked, copied, leaving⟩, fun _ => .inl leaving⟩

theorem Among.childMoves (among : s.Among) (inv : s.Inv) (moves : ChildMoves s s') : s'.Among := by
  cases moves with
  | copies busy flushed finished =>
    refine ⟨fun told => absurd told (among.not_told busy), fun returned => .inr ?_⟩
    exact (among.back returned).resolve_left (by simp [busy])
  | notifies here =>
    have busy : s.child.leaving = false := by rw [here]; rfl
    refine ⟨fun told => ⟨?_, inv.finished (by rw [here]; rfl), rfl⟩, fun _ => .inl rfl⟩
    have sent : s.parentPending = true ∨ s.ignoreeof = 0 ∧ s.parent.alive = true := by
      obtain pending | later := told
      · simpa [notified] using pending
      · exact absurd (.inr later) (among.not_told busy)
    exact (sent.resolve_left fun pending => among.not_told busy (.inl pending)).1
  | ends ending finished =>
    exact ⟨fun told => ⟨(among.told told).1, (among.told told).2.1, rfl⟩, fun _ => .inl rfl⟩

theorem Among.parentMoves (among : s.Among) (moves : ParentMoves s s') : s'.Among := by
  cases moves with
  | moves there flushed kept back =>
    constructor
    · rintro (pending | caught | terminated)
      · exact among.told (.inl pending)
      · exact among.told (.inr (.inl caught))
      · exact absurd terminated there
    · intro returned
      obtain earlier | caught | heard := back returned
      · exact (among.back earlier).imp_right kept
      · exact .inl (among.told (.inr (.inl caught))).2.2
      · exact heard

theorem Among.step {action : Action} (among : s.Among) (inv : s.Inv) (own : action ≠ .killParent)
    (steps : s.stepWith flags action = some s') : s'.Among := by
  cases action with
  | type bytes =>
    obtain ⟨goesOn, same⟩ := Option.ite_none_left_eq_some.1 steps
    cases same
    exact ⟨fun told => absurd (among.told told).2.1.1 goesOn, among.back⟩
  | endInput =>
    cases steps
    exact ⟨fun told => ⟨(among.told told).1, ⟨rfl, (among.told told).2.1.2⟩, (among.told told).2.2⟩,
      among.back⟩
  | print bytes =>
    obtain ⟨-, same⟩ := Option.ite_none_left_eq_some.1 steps
    cases same
    exact ⟨among.told, among.back⟩
  | endOutput =>
    cases steps
    exact ⟨among.told, among.back⟩
  | killChild =>
    cases steps
    exact ⟨among.told, fun returned => (among.back returned).imp_right
      fun pending => by simp [pending]⟩
  | killParent => exact absurd rfl own
  | child result => exact among.childMoves inv (childMoves_of_childStep inv steps)
  | parent result => exact among.parentMoves (parentMoves_of_parentStep inv steps)
  | deliverChild =>
    obtain ⟨-, same⟩ := Option.ite_none_right_eq_some.1 steps
    cases same
    exact ⟨fun told => ⟨(among.told told).1, (among.told told).2.1, rfl⟩, fun _ => .inl rfl⟩
  | deliverParent =>
    obtain ⟨⟨pending, -⟩, delivered⟩ := Option.ite_none_right_eq_some.1 steps
    obtain ⟨asked, copied, leaving⟩ := among.told (.inl pending)
    split at delivered
    · cases delivered
      exact .of_leaving asked copied leaving
    · cases delivered
      exact .of_leaving asked copied leaving

/-! ## What is copied -/

theorem ChildMoves.stream (moves : ChildMoves s s') :
    s'.input.stream = s.input.stream ∧ s'.output = s.output := by
  cases moves with
  | copies busy flushed finished stream => exact ⟨stream, rfl⟩
  | notifies here => exact ⟨rfl, rfl⟩
  | ends ending finished => exact ⟨rfl, rfl⟩

theorem ParentMoves.stream (moves : ParentMoves s s') :
    s'.output.stream = s.output.stream ∧ s'.input = s.input := by
  cases moves with
  | moves there flushed kept back stream => exact ⟨stream, rfl⟩

end State

def Action.typed : Action → List UInt8
  | .type bytes => bytes
  | _ => []

def Action.printed : Action → List UInt8
  | .print bytes => bytes
  | _ => []

namespace State

variable {s s' : State} {flags : Nat}

theorem step_streams {action : Action} (inv : s.Inv) (steps : s.stepWith flags action = some s') :
    s'.input.stream = s.input.stream ++ action.typed ∧
      s'.output.stream = s.output.stream ++ action.printed := by
  cases action with
  | type bytes =>
    obtain ⟨-, same⟩ := Option.ite_none_left_eq_some.1 steps
    cases same
    exact ⟨Relay.stream_supply bytes, (List.append_nil _).symm⟩
  | print bytes =>
    obtain ⟨-, same⟩ := Option.ite_none_left_eq_some.1 steps
    cases same
    exact ⟨(List.append_nil _).symm, Relay.stream_supply bytes⟩
  | child result =>
    obtain ⟨input, output⟩ := (childMoves_of_childStep inv steps).stream
    simp [input, output, Action.typed, Action.printed]
  | parent result =>
    obtain ⟨output, input⟩ := (parentMoves_of_parentStep inv steps).stream
    simp [input, output, Action.typed, Action.printed]
  | endInput | endOutput | killChild | killParent =>
    cases steps
    simp [Action.typed, Action.printed]
  | deliverChild =>
    obtain ⟨-, same⟩ := Option.ite_none_right_eq_some.1 steps
    cases same
    simp [Action.typed, Action.printed]
  | deliverParent =>
    obtain ⟨-, delivered⟩ := Option.ite_none_right_eq_some.1 steps
    split at delivered
    · cases delivered
      simp [Action.typed, Action.printed]
    · cases delivered
      simp [Action.typed, Action.printed]

variable {actions : List Action} {ignoreeof : Int}

theorem typed_of_execute (runs : execute State.step (.start ignoreeof) actions = some s) :
    s.Inv ∧ s.input.stream = (start ignoreeof).input.stream ++ actions.flatMap Action.typed := by
  apply execute_collects _ (start_inv ignoreeof) runs
  intro s action s' inv steps
  exact ⟨inv.step steps, (step_streams inv steps).1⟩

theorem printed_of_execute (runs : execute State.step (.start ignoreeof) actions = some s) :
    s.Inv ∧ s.output.stream = (start ignoreeof).output.stream ++
      actions.flatMap Action.printed := by
  apply execute_collects _ (start_inv ignoreeof) runs
  intro s action s' inv steps
  exact ⟨inv.step steps, (step_streams inv steps).2⟩

/-- In whatever order the processes go on, however little a call moves and whenever signals come:
each of them writes what it reads, in order and without a gap, what comes out is at any time the
front of what has gone in, and only bytes that have not been read or that are in the buffer are
missing.  The buffers are empty outside `writen`; a child that exits with 0 has copied all. -/
theorem relays (runs : execute State.step (.start ignoreeof) actions = some s) :
    s.input.written ++ (s.input.buffer ++ s.input.unread) = actions.flatMap Action.typed ∧
    s.output.written ++ (s.output.buffer ++ s.output.unread) = actions.flatMap Action.printed ∧
    (s.child.flushed = true → s.input.buffer = []) ∧
      (s.parent.flushed = true → s.output.buffer = []) ∧
    (s.child = .gone (.exited 0) → s.input.written = actions.flatMap Action.typed) := by
  obtain ⟨inv, input⟩ := typed_of_execute runs
  have all (here : s.child = .gone (.exited 0)) :
      s.input.written = actions.flatMap Action.typed := by
    obtain ⟨-, dry, done⟩ := inv.finished (by rw [here]; rfl)
    exact (Relay.written_eq_stream done dry).trans input
  exact ⟨input, (printed_of_execute runs).2, inv.childFlushed, inv.parentFlushed, all⟩

/-- Three bytes go in, two come out in two writes, and the signal ends the parent. -/
def session : List Action :=
  [.parent 0, .parent 0, .type [108, 115, 10], .child 3, .child 3, .endInput, .child 0,
    .print [97, 10], .parent 2, .parent 1,
    .parent 1, .parent 0, .child 0, .deliverParent, .parent 0, .child 0]

theorem relays_session : ∃ s, execute State.step (.start 0) session = some s ∧
    s.input.written = [108, 115, 10] ∧ s.output.written = [97, 10] ∧ s.parent = .returned := by
  have reached : ((execute State.step (.start 0) session).any fun s =>
      s.child = .gone (.exited 0) && s.output.written = [97, 10] && s.parent = .returned) =
        true := by decide +kernel
  obtain ⟨s, runs, holds⟩ := (Option.any_eq_true _ _).mp reached
  simp only [Bool.and_eq_true, decide_eq_true_eq] at holds
  obtain ⟨⟨child, output⟩, parent⟩ := holds
  exact ⟨s, runs, (relays runs).2.2.2.2 child, output, parent⟩

/-- When `loop` has returned, the child is on its way out or `SIGTERM` is pending for it: it is not
left behind.  A parent that the signal of the child has terminated was in front of `signal_intr`,
and all of the input has been copied. -/
theorem none_left_behind (runs : execute State.step (.start ignoreeof) actions = some s)
    (alone : .killParent ∉ actions) :
    (s.parent.back = true → s.child.leaving = true ∨ s.childPending = true) ∧
    (s.parent = .gone .terminated →
      s.ignoreeof = 0 ∧ s.handler = none ∧ s.child.leaving = true ∧
        s.input.written = actions.flatMap Action.typed) := by
  obtain ⟨inv, among⟩ : s.Inv ∧ s.Among := by
    refine (Visits.finish runs).invariant (fun s => s.Inv ∧
      s.Among) (fun _ action => action ≠ .killParent)
      ⟨start_inv ignoreeof, start_among ignoreeof⟩ ?_ ?_
    · intro s action s' fits own steps
      exact ⟨fits.1.step steps, fits.2.step fits.1 own steps⟩
    · rintro s action ⟨before, after, rfl, -⟩ rfl
      exact alone (List.mem_append_right _ List.mem_cons_self)
  constructor
  · exact among.back
  · intro terminated
    obtain ⟨asked, ⟨-, dry, done⟩, leaving⟩ := among.told (.inr (.inr terminated))
    exact ⟨asked, inv.early terminated, leaving, (Relay.written_eq_stream done dry).trans
      (relays runs).1⟩

/-- The slave is closed before the input ends. -/
def closed : List Action := [.parent 0, .parent 0, .endOutput, .parent 0, .parent 0, .parent 0]

/-- The input ends before the parent has got to `signal_intr`. -/
def tooSoon : List Action := [.endInput, .child 0, .child 0, .deliverParent]

theorem none_left_behind_closed :
    (∃ s, execute State.step (.start 0) closed = some s ∧ s.parent = .returned ∧
      (s.child.leaving = true ∨ s.childPending = true)) ∧
    ∃ s, execute State.step (.start 0) tooSoon = some s ∧ s.parent = .gone .terminated ∧
      s.handler = none := by
  constructor
  · have reached : ((execute State.step (.start 0) closed).any fun s => s.parent = .returned) =
      true := by decide +kernel
    obtain ⟨s, runs, holds⟩ := (Option.any_eq_true _ _).mp reached
    have parent : s.parent = .returned := of_decide_eq_true holds
    exact ⟨s, runs, parent, (none_left_behind runs (by decide)).1 (by rw [parent]; rfl)⟩
  · have reached : ((execute State.step (.start 0) tooSoon).any fun s => s.parent =
        .gone .terminated) = true := by
      decide +kernel
    obtain ⟨s, runs, holds⟩ := (Option.any_eq_true _ _).mp reached
    have parent : s.parent = .gone .terminated := of_decide_eq_true holds
    exact ⟨s, runs, parent, ((none_left_behind runs (by decide)).2 parent).2.1⟩

/-- The signal of another process does leave the child behind: the parent takes it for the
child's. -/
example : (execute State.step (.start 0)
    [.parent 0, .parent 0, .killParent, .deliverParent, .parent 0, .parent 0]).map
    (fun s => (s.parent, s.child, s.childPending)) = some (.gone (.exited 0), .read, false) := by
      decide

end State

/-! ## The signal and the read -/

/-- The parent has left its loop. -/
def Parent.past : Parent → Bool
  | .test | .kill | .returned | .gone _ => true
  | _ => false

namespace State

variable {s s' : State} {flags : Nat} {actions : List Action} {ignoreeof result : Int}

theorem ChildMoves.apart (moves : ChildMoves s s') :
    s'.parent = s.parent ∧ s'.sigcaught = s.sigcaught := by
  cases moves with
  | copies busy flushed finished stream => exact ⟨rfl, rfl⟩
  | notifies here => exact ⟨rfl, rfl⟩
  | ends ending finished => exact ⟨rfl, rfl⟩

theorem ParentMoves.sigcaught (moves : ParentMoves s s') : s'.sigcaught = s.sigcaught := by
  cases moves with
  | moves there flushed kept back stream => rfl

theorem past_parentStep (past : s.parent.past = true)
    (steps : s.parentStep flags result = some s') : s'.parent.past = true := by
  cases here : s.parent with
  | signalIntr | read | reading | write => simp [here, Parent.past] at past
  | test =>
    simp only [State.parentStep, here] at steps
    cases steps
    split <;> rfl
  | kill | returned =>
    simp only [State.parentStep, here] at steps
    cases steps
    rfl
  | gone ending => simp only [State.parentStep, here, reduceCtorEq] at steps

/-- The parent has its handler with these flags, and a caught signal has ended the loop. -/
structure Stopped (flags : Nat) (s : State) : Prop where
  handler : ∀ installed, s.handler = some installed → installed = flags
  past : s.sigcaught = true → s.parent.past = true

theorem handler_parentStep (steps : s.parentStep flags result = some s') :
    s'.handler = s.handler ∨ s'.handler = some flags := by
  unfold State.parentStep at steps
  repeat' split at steps
  all_goals cases steps
  all_goals simp

theorem Stopped.step {action : Action} (stopped : s.Stopped flags) (inv : s.Inv)
    (interrupts : flags &&& saRestart = 0)
    (waits : action = .deliverParent → s.parent = .reading)
    (steps : s.stepWith flags action = some s') : s'.Stopped flags := by
  cases action with
  | type bytes =>
    obtain ⟨-, same⟩ := Option.ite_none_left_eq_some.1 steps
    cases same
    exact ⟨stopped.handler, stopped.past⟩
  | print bytes =>
    obtain ⟨-, same⟩ := Option.ite_none_left_eq_some.1 steps
    cases same
    exact ⟨stopped.handler, stopped.past⟩
  | endInput | endOutput | killChild | killParent =>
    cases steps
    exact ⟨stopped.handler, stopped.past⟩
  | child result =>
    cases childMoves_of_childStep inv steps with
    | copies | notifies | ends => exact ⟨stopped.handler, stopped.past⟩
  | parent result =>
    have sigcaught := (parentMoves_of_parentStep inv steps).sigcaught
    refine ⟨fun installed there => ?_,
      fun caught => past_parentStep (stopped.past (sigcaught ▸ caught)) steps⟩
    obtain same | now := handler_parentStep steps
    · exact stopped.handler installed (same ▸ there)
    · exact (Option.some.inj (now.symm.trans there)).symm
  | deliverChild =>
    obtain ⟨-, same⟩ := Option.ite_none_right_eq_some.1 steps
    cases same
    exact ⟨stopped.handler, stopped.past⟩
  | deliverParent =>
    obtain ⟨-, delivered⟩ := Option.ite_none_right_eq_some.1 steps
    split at delivered
    next installed there =>
      cases delivered
      refine ⟨stopped.handler, fun _ => ?_⟩
      -- the read is not begun again
      rw [if_pos ⟨waits rfl, by rwa [stopped.handler installed there]⟩]
      rfl
    next =>
      cases delivered
      exact ⟨stopped.handler, fun _ => rfl⟩

/-- The signal is delivered while the parent waits for output. -/
def whileReading : List Action :=
  [.parent 0, .parent 0, .endInput, .child 0, .child 0, .deliverParent]

/-- That the signal ends the loop of the parent if it finds it in `read` is due to the flags: it is
so in every run if and only if `SA_RESTART` is not among them. -/
theorem signal_stops_read_iff :
    (∀ ignoreeof actions s, execute (State.stepWith flags) (.start ignoreeof) actions = some s →
      (∀ s₁, Takes (State.stepWith flags) (.start ignoreeof) actions s₁ .deliverParent →
        s₁.parent = .reading) →
      s.sigcaught = true → s.parent.past = true) ↔ flags &&& saRestart = 0 := by
  constructor
  · intro stops
    by_contra restarts
    have waits : allTaken (State.stepWith flags) (fun s action => action != .deliverParent ||
        s.parent = .reading) (.start 0)
        whileReading = true := rfl
    have past := stops 0 whileReading _
      rfl (fun s₁ takes => by simpa using takes.of_allTaken waits) rfl
    simp [restarts, Parent.past] at past
  · intro interrupts ignoreeof actions s runs waits caught
    have whole : s.Inv ∧ s.Stopped flags := by
      refine (Visits.finish runs).invariant (fun s => s.Inv ∧ s.Stopped flags)
        (fun s action => action = .deliverParent → s.parent = .reading) ⟨start_inv ignoreeof, nofun,
          nofun⟩ ?_ ?_
      · intro s action s' fits allowed steps
        exact ⟨fits.1.step steps, fits.2.step fits.1 interrupts allowed steps⟩
      · intro s₁ action takes isDelivery
        exact waits s₁ (isDelivery ▸ takes)
    exact whole.2.past caught

/-- `signal_intr` leaves the flag out, where `signal` sets it for every signal but `SIGALRM`. -/
example : signalIntr &&& saRestart = 0 := by decide

end State

end Apue.Pty
