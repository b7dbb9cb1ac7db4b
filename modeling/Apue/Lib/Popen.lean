import Apue.Base.Machine
import Apue.Base.Text
import Mathlib.Logic.Function.Basic
import Mathlib.Data.List.Nodup
import Mathlib.Tactic.SplitIfs

/-! # `popen` and `pclose`

`popen` of `lib/popen.c` makes a pipe, forks, gives one end to the child and the other to a stream,
and remembers the child in `childpid` under the descriptor of the stream; `pclose` looks it up
there.  Every system call that can fail does so when the environment says; where a descriptor or a
process id is free is its choice too.  `fclose` and `waitpid` do their work, and the exit status of
the n-th process that was forked is a parameter.
-/

namespace Apue.Lib.Popen

open Apue.Base

/-! ## Descriptor tables -/

/-- What the open descriptors of a process refer to. -/
abbrev Table (δ : Type) := Nat → Option δ

section Table

variable {δ : Type}

def close (table : Table δ) (fd : Nat) : Table δ := Function.update table fd none

def dup2 (table : Table δ) (oldfd newfd : Nat) : Table δ :=
  if (table oldfd).isSome then Function.update table newfd (table oldfd) else table

/-- `for (i = 0; i < maxfd; i++) if (childpid[i] > 0) close(i);`. -/
def closeAll (childpid : Nat → Nat) (maxfd : Nat) (table : Table δ) : Table δ :=
  (List.range maxfd).foldl (fun table i => if 0 < childpid i then close table i else table) table

theorem close_same (table : Table δ) (fd : Nat) : close table fd fd = none := by simp [close]

theorem close_other (table : Table δ) {fd other : Nat} (differ : other ≠ fd) :
    close table fd other = table other := by
  simp [close, differ]

theorem close_eq_some {table : Table δ} {fd other : Nat} {d : δ} : close table fd other = some d ↔
    other ≠ fd ∧ table other = some d := by
  by_cases same : other = fd
  · simp [same, close_same]
  · simp [same, close_other]

theorem closeAll_apply (childpid : Nat → Nat) (maxfd : Nat) (table : Table δ) (fd : Nat) :
    closeAll childpid maxfd table fd = if fd < maxfd ∧ 0 < childpid fd then none else table fd := by
  unfold closeAll
  -- on the descriptors that the loop has gone over
  induction maxfd with
  | zero => simp
  | succ maxfd inductionHypothesis =>
    rw [List.range_succ, List.foldl_append, List.foldl_cons, List.foldl_nil]
    by_cases last : fd = maxfd
    · subst last
      by_cases found : 0 < childpid fd
      · simp [found, close_same]
      · simp [found, inductionHypothesis]
    · have bound : fd < maxfd + 1 ↔ fd < maxfd := by omega
      by_cases found : 0 < childpid maxfd
      · rw [if_pos found, close_other _ last, inductionHypothesis]
        simp only [bound]
      · rw [if_neg found, inductionHypothesis]
        simp only [bound]

end Table

/-! ## The code -/

/-- What a descriptor refers to: a file from before the first call, or an end of the n-th pipe. -/
inductive Description where
  | initial (file : Nat)
  | readEnd (pipe : Nat)
  | writeEnd (pipe : Nat)
  deriving DecidableEq, Repr

/-- The number of the pipe that it is an end of. -/
def Description.pipe : Description → Option Nat
  | .initial _ => none
  | .readEnd pipe | .writeEnd pipe => some pipe

inductive Mode where
  | read
  | write
  deriving DecidableEq, Repr

/-- Only `"r"` and `"w"` are allowed. -/
def parseType (type : Bytes) : Option Mode :=
  if cstr type = [114] then some .read else if cstr type = [119] then some .write else none

structure Child where
  pid : Nat
  /-- How many were forked before. -/
  serial : Nat
  deriving DecidableEq, Repr

structure Stream where
  fd : Nat
  /-- The process that `popen` started for it. -/
  child : Child
  deriving DecidableEq, Repr

structure State where
  table : Table Description
  /-- `none` is the null pointer. -/
  childpid : Option (Nat → Nat)
  /-- The children that nobody has waited for. -/
  children : List Child
  /-- The streams that `popen` has returned and `pclose` has not closed. -/
  streams : List Stream
  pipes : Nat
  forks : Nat
  /-- What `pclose` has returned for the streams of `popen`. -/
  closed : List (Child × Int)

/-- `childpid[fd]`, 0 as long as there is no array. -/
def State.pidAt (s : State) (fd : Nat) : Nat := (s.childpid.getD fun _ => 0) fd

def State.start (initial : Nat → Option Nat) : State where
  table fd := (initial fd).map .initial
  childpid := none
  children := []
  streams := []
  pipes := 0
  forks := 0
  closed := []

/-- What the system calls of one `popen` return: `none` and `false` are failures. -/
structure Outcome where
  calloc : Bool
  pipe : Option (Nat × Nat)
  fork : Option Nat
  fdopen : Bool
  deriving DecidableEq, Repr

/-- What one `popen` comes to: the descriptor of the stream it returns, and the table of the child
at `execl`. -/
structure Popened where
  state : State
  fd : Option Nat
  child : Option (Table Description)

section Popen

variable (maxfd : Nat)

/-- The child gives up the parent's end and moves its own to the standard descriptor. -/
def redirect (table : Table Description) (parentEnd childEnd standard : Nat) : Table Description :=
  let table := close table parentEnd
  if childEnd ≠ standard then close (dup2 table childEnd standard) childEnd else table

/-- The child of `popen` up to `execl`, with the descriptors `pfd[0]` and `pfd[1]`. -/
def childTable (mode : Mode) (childpid : Nat → Nat) (table : Table Description) (pfd0 pfd1 : Nat) :
    Table Description :=
  let table := match mode with
    | .read => redirect table pfd0 pfd1 1
    | .write => redirect table pfd1 pfd0 0
  closeAll childpid maxfd table

/-- The end that the parent keeps, and the one it closes. -/
def Mode.ends (mode : Mode) (pfd0 pfd1 : Nat) : Nat × Nat :=
  match mode with
  | .read => (pfd0, pfd1)
  | .write => (pfd1, pfd0)

/-- The part of `popen` behind the `fork`. -/
def afterFork (s : State) (mode : Mode) (childpid : Nat → Nat) (pfd0 pfd1 : Nat) (child : Child)
    (fdopen : Bool) : Popened :=
  let (kept, given) := mode.ends pfd0 pfd1
  let execl := childTable maxfd mode childpid s.table pfd0 pfd1
  let s := { s with table := close s.table given, children := child :: s.children, forks := s.forks + 1 }
  -- without the stream the child is not remembered
  if fdopen then
    let childpid := Function.update childpid kept child.pid
    ⟨{ s with childpid := some childpid, streams := ⟨kept, child⟩ :: s.streams }, some kept,
      some execl⟩
  else ⟨s, none, some execl⟩

/-- `none` when the system calls cannot answer like that. -/
def popen (s : State) (type : Bytes) (outcome : Outcome) : Option Popened :=
  match parseType type with
  | none => some ⟨s, none, none⟩
  | some mode =>
    if s.childpid.isNone ∧ outcome.calloc = false then some ⟨s, none, none⟩
    else
      let childpid := s.childpid.getD fun _ => 0
      let s := { s with childpid := some childpid }
      match outcome.pipe with
      | none => some ⟨s, none, none⟩
      | some (pfd0, pfd1) =>
        -- the kernel chooses two free descriptors
        if s.table pfd0 = none ∧ s.table pfd1 = none ∧ pfd0 ≠ pfd1 then
          let table := Function.update (Function.update s.table pfd0 (some (.readEnd s.pipes))) pfd1
            (some (.writeEnd s.pipes))
          let s := { s with table := table, pipes := s.pipes + 1 }
          if pfd0 ≥ maxfd ∨ pfd1 ≥
            maxfd then some ⟨{ s with table := close (close s.table pfd0) pfd1 }, none, none⟩
          else
            match outcome.fork with
            | none => some ⟨s, none, none⟩
            | some pid =>
              -- the kernel chooses an id that no child has that has not been waited for
              if 0 < pid ∧ ∀ child ∈ s.children, child.pid ≠ pid then
                some (afterFork maxfd s mode childpid pfd0 pfd1 ⟨pid, s.forks⟩ outcome.fdopen)
              else none
        else none

/-- `waitpid`: the status of the child, or -1. -/
def waitpid (status : Nat → Int) (children : List Child) (pid : Nat) : Int × List Child :=
  match children.find? fun child => child.pid = pid with
  | none => (-1, children)
  | some child => (status child.serial, children.erase child)

/-- `pclose` of the open stream with the descriptor `fd`. -/
def pclose (status : Nat → Int) (s : State) (fd : Nat) : Option State :=
  if s.table fd = none then none
  else
    let pid := s.pidAt fd
    -- the three returns with `EINVAL`
    if s.childpid.isNone ∨ fd ≥ maxfd ∨ pid = 0 then some s
    else
      let (stat, children) := waitpid status s.children pid
      let own := (s.streams.find? fun stream => stream.fd = fd).map Stream.child
      some { s with
        table := close s.table fd
        childpid := s.childpid.map fun childpid => Function.update childpid fd 0
        children := children
        streams := s.streams.filter fun stream => stream.fd ≠ fd
        closed := s.closed ++ (own.map fun child => (child, stat)).toList }

inductive Action where
  | popen (type : Bytes) (outcome : Outcome)
  | pclose (fd : Nat)
  deriving DecidableEq, Repr

def State.step (status : Nat → Int) (s : State) : Action → Option State
  | .popen type outcome => (Popen.popen maxfd s type outcome).map Popened.state
  | .pclose fd => Popen.pclose maxfd status s fd

end Popen

/-- A `fork` or an `fdopen` fails after the pipe has been made. -/
def Leaks (maxfd : Nat) (s : State) : Action → Prop
  | .popen type outcome =>
    parseType type ≠ none ∧ (s.childpid.isNone = true → outcome.calloc = true) ∧
      (∃ pfd ∈ outcome.pipe, pfd.1 < maxfd ∧ pfd.2 < maxfd) ∧
        (outcome.fork = none ∨ outcome.fdopen = false)
  | .pclose _ => False

/-! ## What one call can do -/

/-- After `pipe`. -/
def State.piped (s : State) (pfd0 pfd1 : Nat) : State :=
  { s with
    table := Function.update (Function.update s.table pfd0 (some (.readEnd s.pipes))) pfd1
      (some (.writeEnd s.pipes))
    pipes := s.pipes + 1 }

/-- The array is there, and it was zeroed. -/
def State.allocated (s : State) : State := { s with childpid := some (s.childpid.getD fun _ => 0) }

/-- The parent has closed the end of the child. -/
def State.forked (s : State) (given : Nat) (child : Child) : State :=
  { s with table := close s.table given, children := child :: s.children, forks := s.forks + 1 }

/-- The parent has a stream on its end. -/
def State.opened (s : State) (stream : Stream) : State :=
  { s with
    childpid := some (Function.update (s.childpid.getD fun _ => 0) stream.fd stream.child.pid)
    streams := stream :: s.streams }

theorem State.opened_pidAt (s : State) (stream : Stream) (fd : Nat) :
    (s.opened stream).pidAt fd = if fd = stream.fd then stream.child.pid else s.pidAt fd := by
  simp [opened, pidAt, Function.update_apply]

/-- The two descriptors that `pipe` can have returned to a `popen` that goes on to its `fork`. -/
structure Fresh (maxfd : Nat) (s : State) (pfd0 pfd1 : Nat) : Prop where
  free0 : s.table pfd0 = none
  free1 : s.table pfd1 = none
  differ : pfd0 ≠ pfd1
  bound0 : pfd0 < maxfd
  bound1 : pfd1 < maxfd

variable {maxfd pfd0 pfd1 : Nat} {s s' : State} {type : Bytes} {outcome : Outcome}
    {popened : Popened}

/-- A `popen` changes nothing, or it fails in `fork`, or it forks. -/
theorem popen_cases (answers : popen maxfd s type outcome = some popened) :
    (¬Leaks maxfd s (.popen type outcome) ∧ popened.fd = none ∧ popened.child = none ∧
      ∃ childpid pipes, (∀ fd, childpid.getD (fun _ => 0) fd = s.pidAt fd) ∧ s.pipes ≤ pipes ∧
        popened.state = { s with childpid := childpid, pipes := pipes }) ∨
    ∃ mode pfd0 pfd1, parseType type = some mode ∧ Fresh maxfd s pfd0 pfd1 ∧
      (Leaks maxfd s (.popen type outcome) ∧ popened = ⟨s.allocated.piped pfd0 pfd1, none, none⟩ ∨
        ∃ pid, 0 < pid ∧ (∀ child ∈ s.children, child.pid ≠ pid) ∧
          (Leaks maxfd s (.popen type outcome) ↔ outcome.fdopen = false) ∧
          popened = afterFork maxfd (s.allocated.piped pfd0 pfd1) mode
            (s.childpid.getD fun _ => 0) pfd0 pfd1 ⟨pid, s.forks⟩
            outcome.fdopen) := by
  -- the tests of the code in their order, with what the environment answers in each
  unfold popen at answers
  cases mode : parseType type with
  | none =>
    simp only [mode, Option.some.injEq] at answers
    subst answers
    exact .inl ⟨by simp [Leaks, mode], rfl, rfl, s.childpid, s.pipes, fun _ => rfl, Nat.le_refl _, rfl⟩
  | some mode' =>
    simp only [mode] at answers
    split at answers
    · rename_i unallocated
      simp only [Option.some.injEq] at answers
      subst answers
      exact .inl ⟨by simp [Leaks, unallocated], rfl, rfl, s.childpid, s.pipes, fun _ => rfl, Nat.le_refl _, rfl⟩
    · rename_i allocated
      cases pipe : outcome.pipe with
      | none =>
        simp only [pipe, Option.some.injEq] at answers
        subst answers
        refine .inl ⟨by simp [Leaks, pipe], rfl, rfl, some (s.childpid.getD fun _ => 0), s.pipes, fun _ => rfl, ?_, rfl⟩
        exact Nat.le_refl _
      | some pfd =>
        obtain ⟨pfd0, pfd1⟩ := pfd
        simp only [pipe] at answers
        split at answers <;> [skip; simp at answers]
        rename_i free
        obtain ⟨free0, free1, differ⟩ := free
        split at answers
        · rename_i outside
          simp only [Option.some.injEq] at answers
          subst answers
          refine .inl ⟨?_, rfl, rfl, some (s.childpid.getD fun _ => 0), s.pipes + 1, fun _ => rfl,
            Nat.le_succ _, ?_⟩
          · simp only [Leaks, pipe, Option.mem_def, Option.some.injEq, exists_eq_left']
            omega
          · -- both ends are closed again
            have closed : close (close (s.allocated.piped pfd0 pfd1).table pfd0) pfd1 =
                s.table := by
              funext fd
              by_cases second : fd = pfd1
              · rw [second, close_same, free1]
              · rw [close_other _ second]
                by_cases first : fd = pfd0
                · rw [first, close_same, free0]
                · rw [close_other _ first]
                  simp [State.piped, State.allocated, first, second]
            rw [State.mk.injEq]
            exact ⟨closed, rfl, rfl, rfl, rfl, rfl, rfl⟩
        -- from here on a failure leaves something behind
        · rename_i inside
          have fresh : Fresh maxfd s pfd0 pfd1 := ⟨free0, free1, differ, by omega, by omega⟩
          have reaches : Leaks maxfd s (.popen type outcome) ↔
              (outcome.fork = none ∨ outcome.fdopen = false) := by
            have calloc : s.childpid = none → outcome.calloc = true := by simpa using allocated
            simp +contextual [Leaks, mode, pipe, fresh.bound0, fresh.bound1, calloc]
          refine .inr ⟨mode', pfd0, pfd1, rfl, fresh, ?_⟩
          cases fork : outcome.fork with
          | none =>
            simp only [fork, Option.some.injEq] at answers
            exact .inl ⟨by simp [reaches, fork], answers.symm⟩
          | some pid =>
            simp only [fork] at answers
            split at answers <;> [skip; simp at answers]
            rename_i new
            simp only [Option.some.injEq] at answers
            exact .inr ⟨pid, new.1, new.2, by simp [reaches, fork], answers.symm⟩

/-! ## The ends of the new pipe -/

theorem piped_apply (s : State) (pfd0 pfd1 fd : Nat) : (s.piped pfd0 pfd1).table fd =
    if fd = pfd1 then some (.writeEnd s.pipes) else if fd =
      pfd0 then some (.readEnd s.pipes) else s.table fd := by
  simp [State.piped, Function.update_apply]

namespace Fresh

theorem allocated (fresh : Fresh maxfd s pfd0 pfd1) : Fresh maxfd s.allocated pfd0 pfd1 :=
  ⟨fresh.free0, fresh.free1, fresh.differ, fresh.bound0, fresh.bound1⟩

/-- The two ends, whichever the parent keeps. -/
theorem ends (fresh : Fresh maxfd s pfd0 pfd1) (mode : Mode) :
    Fresh maxfd s (mode.ends pfd0 pfd1).1 (mode.ends pfd0 pfd1).2 := by
  cases mode with
  | read => exact fresh
  | write => exact ⟨fresh.free1, fresh.free0, fresh.differ.symm, fresh.bound1, fresh.bound0⟩

theorem reads (fresh : Fresh maxfd s pfd0 pfd1) :
    (s.piped pfd0 pfd1).table pfd0 = some (.readEnd s.pipes) := by
  rw [piped_apply, if_neg fresh.differ, if_pos rfl]

theorem writes (s : State) (pfd0 pfd1 : Nat) :
    (s.piped pfd0 pfd1).table pfd1 = some (.writeEnd s.pipes) := by
  rw [piped_apply, if_pos rfl]

/-- In the piped state both are ends of the new pipe. -/
theorem held (fresh : Fresh maxfd s pfd0 pfd1) (mode : Mode) :
    (∃ d, (s.piped pfd0 pfd1).table (mode.ends pfd0 pfd1).1 = some d ∧ d.pipe = some s.pipes) ∧
      ∃ d, (s.piped pfd0 pfd1).table (mode.ends pfd0 pfd1).2 = some d ∧ d.pipe = some s.pipes := by
  cases mode with
  | read => exact ⟨⟨_, fresh.reads, rfl⟩, _, writes s pfd0 pfd1, rfl⟩
  | write => exact ⟨⟨_, writes s pfd0 pfd1, rfl⟩, _, fresh.reads, rfl⟩

/-- Behind the fork the end that is kept is open. -/
theorem kept (fresh : Fresh maxfd s pfd0 pfd1) (mode : Mode) :
    ∃ d, close (s.piped pfd0 pfd1).table (mode.ends pfd0 pfd1).2 (mode.ends pfd0 pfd1).1 = some d ∧
      d.pipe = some s.pipes := by
  rw [close_other _ (fresh.ends mode).differ]
  exact (fresh.held mode).1

/-- The other descriptors are as they were before the pipe. -/
theorem others (fresh : Fresh maxfd s pfd0 pfd1) (mode : Mode) {fd : Nat}
    (other : fd ≠ (mode.ends pfd0 pfd1).1) :
    close (s.piped pfd0 pfd1).table (mode.ends pfd0 pfd1).2 fd = s.table fd := by
  by_cases given : fd = (mode.ends pfd0 pfd1).2
  · rw [given, close_same, (fresh.ends mode).free1]
  · rw [close_other _ given, piped_apply]
    cases mode with
    | read => exact (if_neg given).trans (if_neg other)
    | write => exact (if_neg other).trans (if_neg given)

/-- What was open before is not touched. -/
theorem untouched (fresh : Fresh maxfd s pfd0 pfd1) (mode : Mode) {fd : Nat}
    (opened : s.table fd ≠ none) :
    close (s.piped pfd0 pfd1).table (mode.ends pfd0 pfd1).2 fd = s.table fd := by
  apply fresh.others mode
  rintro rfl
  exact opened (fresh.ends mode).free0

end Fresh

/-- What the fork of a `popen` leads to, with the stream or without. -/
theorem afterFork_state (t : State) (mode : Mode) (childpid : Nat → Nat) (pfd0 pfd1 : Nat)
    (child : Child) (fdopen : Bool)
    (here : t.childpid = some childpid) :
    (afterFork maxfd t mode childpid pfd0 pfd1 child fdopen).state =
      if fdopen then (t.forked (mode.ends pfd0 pfd1).2 child).opened
        ⟨(mode.ends pfd0 pfd1).1, child⟩
      else t.forked (mode.ends pfd0 pfd1).2 child := by
  cases fdopen
  · rfl
  · simp [afterFork, State.forked, State.opened, here]

end Apue.Lib.Popen
