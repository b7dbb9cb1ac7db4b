import Apue.Base.Program
import Mathlib.Logic.Function.Basic

/-! # Processes that interleave their system calls

A `System` is any number of processes `ι` that run operations of one library on shared state `W`,
each with a local structure `L` (its handle).  Between two operations a process is idle; inside one
it advances by one system call at a time, so a `Run` is an interleaving at system-call granularity.
A run records when operations are invoked, respond, or end their process.
-/

namespace Apue.Base

structure System (ι : Type) (S : Signature) (ε W Op L Res : Type) where
  kernel : ι → Kernel S W
  /-- What the end of a process does to the shared state. -/
  exit : ι → W → W
  code : Op → L → Prog S ε (Res × L)
  /-- The operations a process may invoke on its handle. -/
  may : ι → L → Op → Prop

inductive Proc (S : Signature) (ε Op L Res : Type) where
  | idle (handle : L)
  | busy (op : Op) (rest : Prog S ε (Res × L))
  | stopped (error : ε)

inductive Event (ι ε Op Res : Type) where
  | invoke (p : ι) (op : Op)
  | respond (p : ι) (op : Op) (res : Res)
  | stop (p : ι) (error : ε)
  deriving DecidableEq

structure Config (ι : Type) (S : Signature) (ε W Op L Res : Type) where
  world : W
  procs : ι → Proc S ε Op L Res

variable {ι : Type} [DecidableEq ι] {S : Signature} {ε W Op L Res : Type}

def Config.setProc (c : Config ι S ε W Op L Res) (p : ι) (proc : Proc S ε Op L Res) :
    Config ι S ε W Op L Res :=
  { c with procs := Function.update c.procs p proc }

/-- One step of process `p`, with the event it makes visible. -/
inductive Step (M : System ι S ε W Op L Res) (p : ι) :
    Config ι S ε W Op L Res → List (Event ι ε Op Res) → Config ι S ε W Op L Res → Prop where
  | invoke {c : Config ι S ε W Op L Res} {handle : L} {op : Op} (idle : c.procs p = .idle handle)
      (allowed : M.may p handle op) :
        Step M p c [.invoke p op] (c.setProc p (.busy op (M.code op handle)))
  | call {c : Config ι S ε W Op L Res} {op : Op} {request : S.Call} {next : S.Answer request → Prog S ε (Res × L)}
      {answer : S.Answer request} {world : W} (busy : c.procs p = .busy op (.call request next))
      (answers : M.kernel p request c.world = some (answer, world)) :
      Step M p c [] (Config.setProc { c with world := world } p (.busy op (next answer)))
  | loop {c : Config ι S ε W Op L Res} {op : Op} {σ β : Type} {body : σ → Prog S ε (σ ⊕ β)} {state : σ}
      {next : β → Prog S ε (Res × L)} (busy : c.procs p = .busy op (.loop body state next)) :
      Step M p c [] (c.setProc p (.busy op (.unroll body state next)))
  | respond {c : Config ι S ε W Op L Res} {op : Op} {res : Res} {handle : L}
      (busy : c.procs p = .busy op (.ret (res, handle))) :
      Step M p c [.respond p op res] (c.setProc p (.idle handle))
  | stop {c : Config ι S ε W Op L Res} {op : Op} {error : ε} (busy : c.procs p = .busy op (.abort error)) :
      Step M p c [.stop p error] (Config.setProc { c with world := M.exit p c.world } p
        (.stopped error))

/-- A run whose states all satisfy `along`, with its history. -/
inductive Run (M : System ι S ε W Op L Res) (along : Config ι S ε W Op L Res → Prop) :
    Config ι S ε W Op L Res → List (Event ι ε Op Res) → Config ι S ε W Op L Res → Prop where
  | start {c : Config ι S ε W Op L Res} (holds : along c) : Run M along c [] c
  | step {c c' c'' : Config ι S ε W Op L Res} {history events : List (Event ι ε Op Res)} {p : ι}
      (earlier : Run M along c history c') (last : Step M p c' events c'') (holds : along c'') :
      Run M along c (history ++ events) c''

@[simp] theorem Config.setProc_self (c : Config ι S ε W Op L Res) (p : ι) (proc : Proc S ε Op L Res) :
    (c.setProc p proc).procs p = proc := by simp [Config.setProc]

theorem Config.setProc_other (c : Config ι S ε W Op L Res) {p q : ι} (proc : Proc S ε Op L Res)
    (other : q ≠ p) :
    (c.setProc p proc).procs q = c.procs q := by simp [Config.setProc, other]

@[simp] theorem Config.setProc_world (c : Config ι S ε W Op L Res) (p : ι) (proc : Proc S ε Op L Res) :
    (c.setProc p proc).world = c.world := rfl

/-- A property of the start that every step keeps holds in every state a run reaches. -/
theorem Run.invariant {M : System ι S ε W Op L Res} {along : Config ι S ε W Op L Res → Prop}
    {c c' : Config ι S ε W Op L Res} {history : List (Event ι ε Op Res)}
    {inv : Config ι S ε W Op L Res → Prop}
    (run : Run M along c history c') (start : inv c)
    (step : ∀ p c₁ events c₂, inv c₁ → Step M p c₁ events c₂ → inv c₂) : inv c' := by
  induction run with
  | start _ => exact start
  | step _ last _ inductionHypothesis => exact step _ _ _ _ inductionHypothesis last

/-- A run goes on from where another ends. -/
theorem Run.trans {M : System ι S ε W Op L Res} {along : Config ι S ε W Op L Res → Prop}
    {c c' c'' : Config ι S ε W Op L Res}
    {history events : List (Event ι ε Op Res)} (first : Run M along c history c')
    (second : Run M along c' events c'') :
    Run M along c (history ++ events) c'' := by
  induction second with
  | start _ =>
    rw [List.append_nil]
    exact first
  | step _ last holds inductionHypothesis =>
    rw [← List.append_assoc]
    exact .step inductionHypothesis last holds

theorem Config.setProc_setProc (c : Config ι S ε W Op L Res) (w : W) (p : ι)
    (proc proc' : Proc S ε Op L Res) :
    Config.setProc { c.setProc p proc with world := w } p proc' =
      Config.setProc { c with world := w } p proc' := by
  simp [Config.setProc]

/-- What a process does on its own while the others wait is a run of the system. -/
theorem Exec.run {M : System ι S ε W Op L Res} {p : ι} {op : Op} {x : Prog S ε (Res × L)}
    {outcome : Outcome ε (Res × L)}
    {w w' : W} {value : Res × L} (runs : Exec (M.kernel p) x w outcome w')
    (returns : outcome = .returned value)
    (c : Config ι S ε W Op L Res) :
    Run M (fun _ => True) (Config.setProc { c with world := w } p (.busy op x)) []
      (Config.setProc { c with world := w' } p (.busy op (.ret value))) := by
  induction runs with
  | ret value' w =>
    cases returns
    exact .start trivial
  | abort error w => cases returns
  | @call request next w₁ w₂ _ answer _ answers rest inductionHypothesis =>
    let before := Config.setProc { c with world := w₁ } p (.busy op (.call request next))
    have first : Step M p before
        [] (Config.setProc { before with world := w₂ } p (.busy op (next answer))) :=
      .call (Config.setProc_self ..) answers
    rw [Config.setProc_setProc] at first
    exact Run.trans (.step (.start trivial) first trivial) (inductionHypothesis returns)
  | @loop _ _ body state next w₁ _ _ rest inductionHypothesis =>
    let before := Config.setProc { c with world := w₁ } p (.busy op (.loop body state next))
    have first : Step M p before [] (before.setProc p (.busy op (.unroll body state next))) :=
      .loop (Config.setProc_self ..)
    have same := Config.setProc_setProc { c with world := w₁ } w₁ p
      (.busy op (.loop body state next))
      (.busy op (.unroll body state next))
    exact Run.trans (.step (.start trivial) (same ▸ first) trivial) (inductionHypothesis returns)

/-! ## Schedules -/

/-- The next step of a process, with what it makes visible; an operation is given if it is idle. -/
def Config.advance (M : System ι S ε W Op L Res) [∀ p handle op, Decidable (M.may p handle op)]
    (c : Config ι S ε W Op L Res)
    (p : ι) (op : Option Op) : Option (List (Event ι ε Op Res) × Config ι S ε W Op L Res) :=
  match c.procs p with
  | .idle handle => op.bind fun op =>
    if M.may p handle op then some ([.invoke p op],
      c.setProc p (.busy op (M.code op handle))) else none
  | .busy op (.call request next) => (M.kernel p request c.world).map fun (answer, world) =>
    ([], Config.setProc { c with world := world } p (.busy op (next answer)))
  | .busy op (.loop body state next) => some ([], c.setProc p (.busy op (.unroll body state next)))
  | .busy op (.ret (res, handle)) => some ([.respond p op res], c.setProc p (.idle handle))
  | .busy _ (.abort error) =>
    some ([.stop p error], Config.setProc { c with world := M.exit p c.world } p (.stopped error))
  | .stopped _ => none

/-- The processes are given turns in this order, and one that cannot go on waits. -/
def Config.follow (M : System ι S ε W Op L Res) [∀ p handle op, Decidable (M.may p handle op)]
    (along : Config ι S ε W Op L Res → Prop) [DecidablePred along] (c : Config ι S ε W Op L Res) :
    List (ι × Option Op) → Option (List (Event ι ε Op Res) × Config ι S ε W Op L Res)
  | [] => some ([], c)
  | (p, op) :: schedule =>
    match c.advance M p op with
    | none => c.follow M along schedule
    | some (events, c) =>
      if along c then (c.follow M along schedule).map fun (history, c) =>
        (events ++ history, c) else none

section

variable {M : System ι S ε W Op L Res} [∀ p handle op, Decidable (M.may p handle op)]
  {along : Config ι S ε W Op L Res → Prop} [DecidablePred along] {c c' : Config ι S ε W Op L Res}
  {history events : List (Event ι ε Op Res)} {p : ι}

omit [DecidablePred along] in
theorem Config.advance_step {op : Option Op} (advances : c.advance M p op = some (events, c')) :
    Step M p c events c' := by
  unfold Config.advance at advances
  split at advances
  · rename_i handle idle
    obtain ⟨o, -, given⟩ := Option.bind_eq_some_iff.1 advances
    split at given
    case isTrue allowed =>
      cases given
      exact .invoke idle allowed
    case isFalse => cases given
  · rename_i busy
    obtain ⟨⟨answer, world⟩, answers, same⟩ := Option.map_eq_some_iff.1 advances
    cases same
    exact .call busy answers
  · rename_i busy
    cases advances
    exact .loop busy
  · rename_i busy
    cases advances
    exact .respond busy
  · rename_i busy
    cases advances
    exact .stop busy
  · cases advances

theorem Config.follow_run {schedule : List (ι × Option Op)}
    (follows : c.follow M along schedule = some (history, c'))
    (holds : along c) : Run M along c history c' := by
  induction schedule generalizing c history with
  | nil =>
    cases follows
    exact .start holds
  | cons first schedule inductionHypothesis =>
    obtain ⟨p, op⟩ := first
    rw [follow] at follows
    split at follows
    case h_1 => exact inductionHypothesis follows holds
    case h_2 events next advances =>
      split at follows
      case isTrue holds' =>
        obtain ⟨⟨later, last⟩, rest, same⟩ := Option.map_eq_some_iff.1 follows
        cases same
        exact Run.trans (.step (.start holds) (advance_step advances) holds')
          (inductionHypothesis rest holds')
      case isFalse => cases follows

end

def Proc.isIdle : Proc S ε Op L Res → Bool
  | .idle _ => true
  | _ => false

theorem Proc.exists_idle {proc : Proc S ε Op L Res} (idle : proc.isIdle = true) :
    ∃ handle, proc = .idle handle := by
  cases proc with
  | idle handle => exact ⟨handle, rfl⟩
  | busy op rest => cases idle
  | stopped error => cases idle

/-- The process is inside an operation. -/
def Config.Inside (c : Config ι S ε W Op L Res) (p : ι) : Prop :=
  ∃ op rest, c.procs p = .busy op rest

end Apue.Base
