import Apue.Lib.PopenStreams

/-! # The child of `popen`

The child moves its end of the pipe to the standard descriptor and then closes the descriptors of
the streams that the parent has open, whichever they are.
-/

namespace Apue.Lib.Popen

open Apue.Base

variable {maxfd pfd0 pfd1 : Nat} {s : State}

/-- `STDOUT_FILENO` or `STDIN_FILENO`. -/
def Mode.standard : Mode → Nat
  | .read => 1
  | .write => 0

/-- The end of the n-th pipe that is meant for the child. -/
def Mode.childEnd (mode : Mode) (pipe : Nat) : Description :=
  match mode with
  | .read => .writeEnd pipe
  | .write => .readEnd pipe

/-- The standard descriptor is the child's end of the new pipe, and no other descriptor is an end of
this pipe or what the parent has for a stream that is open. -/
structure RightChild (s : State) (mode : Mode) (child : Table Description) : Prop where
  standard : child mode.standard = some (mode.childEnd s.pipes)
  others : ∀ fd d, child fd = some d → fd ≠ mode.standard → d ≠ .readEnd s.pipes ∧
    d ≠ .writeEnd s.pipes ∧
    ∀ stream ∈ s.streams, s.table stream.fd ≠ some d

/-- The child's end is moved to the standard descriptor; there and nowhere else is an end of the
pipe. -/
theorem redirect_apply {table : Table Description} {parentEnd childEnd standard : Nat}
    {d : Description}
    (differ : parentEnd ≠ childEnd) (held : table childEnd = some d) (fd : Nat) :
    redirect table parentEnd childEnd standard fd =
      if fd = standard then some d else if fd = parentEnd ∨
        fd = childEnd then none else table fd := by
  have still : close table parentEnd childEnd = some d := by rw [close_other _ differ.symm, held]
  unfold redirect
  -- the end may have the standard descriptor from the start
  by_cases already : childEnd = standard
  · subst already
    simp only [ne_eq, not_true, if_false]
    by_cases here : fd = childEnd
    · simp [here, still]
    · by_cases given : fd = parentEnd
      · simp [given, differ, close_same]
      · simp [here, given, close_other]
  · simp only [ne_eq, already, not_false_eq_true, if_true]
    by_cases given : fd = childEnd
    · simp [given, already, close_same]
    · rw [close_other _ given]
      simp only [dup2, still, Option.isSome_some, if_true, Function.update_apply]
      by_cases here : fd = standard
      · simp [here]
      · by_cases other : fd = parentEnd
        · simp [other, close_same]
        · simp [here, given, other, close_other]

/-- What the child of a new pipe has at its `execl`. -/
theorem childTable_apply (fresh : Fresh maxfd s pfd0 pfd1) (mode : Mode) (childpid : Nat → Nat)
    (fd : Nat) :
    childTable maxfd mode childpid (s.piped pfd0 pfd1).table pfd0 pfd1 fd =
      if fd < maxfd ∧ 0 < childpid fd then none
      else if fd = mode.standard then some (mode.childEnd s.pipes)
      else if fd = pfd0 ∨ fd = pfd1 then none else s.table fd := by
  -- neither end is left but the one that was moved
  have others : (if fd = pfd0 ∨ fd = pfd1 then none else (s.piped pfd0 pfd1).table fd) =
      if fd = pfd0 ∨ fd = pfd1 then none else s.table fd := by
    split_ifs with isEnd
    · rfl
    · rw [not_or] at isEnd
      rw [piped_apply, if_neg isEnd.2, if_neg isEnd.1]
  cases mode with
  | read =>
    simp only [childTable, closeAll_apply,
      redirect_apply fresh.differ (Fresh.writes s pfd0 pfd1), others]
    rfl
  | write =>
    simp only [childTable, closeAll_apply, redirect_apply fresh.differ.symm fresh.reads,
      @or_comm (fd = pfd1), others]
    rfl

/-- The table of a child that `popen` forks, whether the stream is there afterwards or not. -/
theorem popen_child {type : Bytes} {outcome : Outcome} {popened : Popened} {mode : Mode}
    (parses : parseType type = some mode)
    (answers : popen maxfd s type outcome = some popened) {child : Table Description}
    (execs : popened.child = some child) :
    ∃ pfd0 pfd1, Fresh maxfd s pfd0 pfd1 ∧ ∀ fd, child fd =
      if fd < maxfd ∧ 0 < s.pidAt fd then none
      else if fd = mode.standard then some (mode.childEnd s.pipes)
      else if fd = pfd0 ∨ fd = pfd1 then none else s.table fd := by
  obtain ⟨-, -, none, -⟩ | ⟨mode', pfd0, pfd1, parses', fresh, rest⟩ := popen_cases answers
  · simp [none] at execs
  · obtain rfl : mode = mode' := by simpa [parses] using parses'
    obtain ⟨-, rfl⟩ | ⟨pid, -, -, -, rfl⟩ := rest
    · simp at execs
    · refine ⟨pfd0, pfd1, fresh, fun fd => ?_⟩
      have table : child = childTable maxfd mode
          (s.childpid.getD fun _ => 0) (s.allocated.piped pfd0 pfd1).table pfd0 pfd1 := by
        cases fdopen : outcome.fdopen <;> simp only [afterFork, fdopen] at execs <;>
          exact (Option.some.inj execs).symm
      rw [table, childTable_apply fresh.allocated]
      rfl

/-- The child of a `popen` gets the right descriptors exactly when no open stream has the standard
descriptor it needs. -/
theorem child_descriptors_iff (maxfd : Nat) (initial : Nat → Option Nat) (status : Nat → Int)
    {actions : List Action}
    {s : State} (runs : execute (State.step maxfd status) (.start initial) actions = some s)
    {type : Bytes} {mode : Mode}
    (parses : parseType type = some mode) {outcome : Outcome} {popened : Popened}
    (answers : popen maxfd s type outcome = some popened) {child : Table Description}
    (execs : popened.child = some child) :
    RightChild s mode child ↔ ¬∃ stream ∈ s.streams, stream.fd = mode.standard := by
  have inv : s.Inv maxfd initial status := run_inv (Visits.finish runs)
  obtain ⟨pfd0, pfd1, fresh, apply⟩ := popen_child parses answers execs
  -- the descriptors that the loop closes are those of the streams
  have taken (stream : Stream) (member : stream ∈ s.streams) : stream.fd < maxfd ∧
      0 < s.pidAt stream.fd :=
    ⟨(inv.holds stream member).bound,
      Nat.pos_of_ne_zero ((inv.childpid_iff _).mpr ⟨stream, member, rfl⟩)⟩
  constructor
  · rintro right ⟨stream, member, same⟩
    have closed := apply stream.fd
    rw [if_pos (taken stream member), same, right.standard] at closed
    cases closed
  · intro nobody
    constructor
    · rw [apply, if_neg, if_pos rfl]
      rintro ⟨-, positive⟩
      exact nobody (inv.childpid _ positive.ne')
    · intro fd d found other
      rw [apply, if_neg other] at found
      split_ifs at found with closed ends
      -- what is left comes from the parent, whose pipes are older
      refine ⟨?_, ?_, fun stream member same => ?_⟩
      · rintro rfl
        exact Nat.lt_irrefl _ (inv.made fd _ _ found rfl)
      · rintro rfl
        exact Nat.lt_irrefl _ (inv.made fd _ _ found rfl)
      · obtain ⟨d', held, isEnd⟩ := (inv.holds stream member).kept
        obtain rfl : d' = d := by simpa [held] using same
        obtain rfl := inv.unique _ _ _ held found isEnd
        exact closed (taken stream member)

/-- Standard input is closed, so a `popen` for reading gets descriptor 0 for its stream. -/
def noInput (fd : Nat) : Option Nat := if fd = 0 then none else terminal fd

def earlier : List Action := [.popen [114] (opening 0 3 100)]

/-- A child that writes, beside the stream on descriptor 0. -/
theorem child_descriptors_iff_beside : ∃ s popened child,
    execute (State.step 256 fun _ => 0) (.start noInput) earlier = some s ∧
      popen 256 s [114] (opening 3 4 101) = some popened ∧ popened.child = some child ∧
        RightChild s .read child := by
  have evaluates : (execute (State.step 256 fun _ => 0) (.start noInput) earlier).map
      State.streams =
      some [⟨0, ⟨100, 0⟩⟩] := rfl
  obtain ⟨s, runs, streams⟩ := Option.map_eq_some_iff.mp evaluates
  have forks : ∃ popened child, popen 256 s [114] (opening 3 4 101) = some popened ∧
      popened.child = some child := by
    cases runs
    exact ⟨_, _, rfl, rfl⟩
  obtain ⟨popened, child, answers, execs⟩ := forks
  refine ⟨s, popened, child, runs, answers, execs, ?_⟩
  have reads : parseType [114] = some .read := rfl
  refine (child_descriptors_iff 256 noInput (fun _ => 0) runs reads answers execs).mpr ?_
  simp [streams, Mode.standard]

/-- A child that reads, and finds its standard input closed. -/
theorem child_loses_input : ∃ s popened child,
    execute (State.step 256 fun _ => 0) (.start noInput) earlier = some s ∧
      popen 256 s [119] (opening 3 4 101) = some popened ∧ popened.fd = some 4 ∧
        popened.child = some child ∧
      child 0 = none ∧ ¬RightChild s .write child := by
  have closed (table : Table Description) :
      closeAll (Function.update (fun _ => 0) 0 100) 256 table 0 = none := by
        rw [closeAll_apply]; rfl
  refine ⟨_, _, _, rfl, rfl, rfl, rfl, closed _, fun right => ?_⟩
  have standard := right.standard
  rw [show Mode.standard .write = 0 from rfl] at standard
  exact absurd ((closed _).symm.trans standard) (by simp)

end Apue.Lib.Popen
