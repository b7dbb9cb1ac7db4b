import Mathlib.Logic.Basic

/-! # Programs that make system calls

`Prog` is the shallow embedding of C code whose only effects are system calls: a tree of calls, a
`while` loop with its loop variables, and the exits `err_dump`/`err_quit` take.  One process on its
own runs a program with `Exec` (and the executable `exec`); `Apue.Base.Interleaving` runs many at
once, one call at a time.  `Code` adds the C structure the functions of a library share.
-/

namespace Apue.Base

/-- The system calls a program may make, and the type of each one's answer. -/
structure Signature where
  Call : Type
  Answer : Call → Type

inductive Prog (S : Signature) (ε : Type) : Type → Type 1 where
  | ret {α : Type} (value : α) : Prog S ε α
  | abort {α : Type} (error : ε) : Prog S ε α
  | call {α : Type} (c : S.Call) (next : S.Answer c → Prog S ε α) : Prog S ε α
  | loop {α σ β : Type} (body : σ → Prog S ε (σ ⊕ β)) (state : σ) (next : β → Prog S ε α) : Prog S ε α

variable {S : Signature} {ε α β γ σ L W : Type}

namespace Prog

def bind {α β : Type} : Prog S ε α → (α → Prog S ε β) → Prog S ε β
  | .ret value, f => f value
  | .abort error, _ => .abort error
  | .call c next, f => .call c fun answer => (next answer).bind f
  | .loop body state next, f => .loop body state fun result => (next result).bind f

instance : Monad (Prog S ε) where
  pure := .ret
  bind := bind

/-- One turn of a loop: the body runs, then the loop goes on or hands over its result. -/
def unroll (body : σ → Prog S ε (σ ⊕ β)) (state : σ) (next : β → Prog S ε α) : Prog S ε α :=
  (body state).bind fun
    | .inl state => .loop body state next
    | .inr result => next result

theorem bind_assoc (x : Prog S ε α) (f : α → Prog S ε β) (g : β → Prog S ε γ) :
    (x.bind f).bind g = x.bind fun value => (f value).bind g := by
  induction x with
  | ret value => rfl
  | abort error => rfl
  | call c next inductionHypothesis => simp only [bind, inductionHypothesis]
  | loop body state next _ inductionHypothesis => simp only [bind, inductionHypothesis]

theorem bind_ret (x : Prog S ε α) : x.bind .ret = x := by
  induction x with
  | ret value => rfl
  | abort error => rfl
  | call c next inductionHypothesis => simp only [bind, inductionHypothesis]
  | loop body state next _ inductionHypothesis => simp only [bind, inductionHypothesis]

theorem unroll_bind (body : σ → Prog S ε (σ ⊕ β)) (state : σ) (next : β → Prog S ε α)
    (f : α → Prog S ε γ) :
    (unroll body state next).bind f = unroll body state fun result => (next result).bind f := by
  simp only [unroll, bind_assoc]
  congr 1
  funext result
  cases result <;> rfl

end Prog

/-! ## One process on its own -/

/-- How a program ends. -/
inductive Outcome (ε α : Type) where
  | returned (value : α)
  | aborted (error : ε)

/-- The value returned satisfies `Q`, or the error `E`. -/
def Outcome.Satisfies (Q : α → Prop) (E : ε → Prop) : Outcome ε α → Prop
  | .returned value => Q value
  | .aborted error => E error

/-- What a system call answers and does; `none` while the call blocks. -/
abbrev Kernel (S : Signature) (W : Type) := (c : S.Call) → W → Option (S.Answer c × W)

/-- The program runs to its end with nobody else running. -/
inductive Exec (kernel : Kernel S W) : Prog S ε α → W → Outcome ε α → W → Prop where
  | ret (value : α) (w : W) : Exec kernel (.ret value) w (.returned value) w
  | abort (error : ε) (w : W) : Exec kernel (.abort error) w (.aborted error) w
  | call {c : S.Call} {next : S.Answer c → Prog S ε α} {w w' w'' : W} {answer : S.Answer c} {outcome : Outcome ε α}
      (answers : kernel c w = some (answer, w')) (rest : Exec kernel (next answer) w' outcome w'') :
      Exec kernel (.call c next) w outcome w''
  | loop {σ β : Type} {body : σ → Prog S ε (σ ⊕ β)} {state : σ} {next : β → Prog S ε α} {w w' : W}
      {outcome : Outcome ε α} (rest : Exec kernel (.unroll body state next) w outcome w') :
      Exec kernel (.loop body state next) w outcome w'

theorem Exec.deterministic {kernel : Kernel S W} {x : Prog S ε α} {w w₁ w₂ : W}
    {o₁ o₂ : Outcome ε α}
    (first : Exec kernel x w o₁ w₁) (second : Exec kernel x w o₂ w₂) : o₁ = o₂ ∧ w₁ = w₂ := by
  induction first with
  | ret value w => cases second; exact ⟨rfl, rfl⟩
  | abort error w => cases second; exact ⟨rfl, rfl⟩
  | call answers rest inductionHypothesis =>
    cases second with
    | call answers' rest' =>
      rw [answers] at answers'
      cases answers'
      exact inductionHypothesis rest'
  | loop rest inductionHypothesis =>
    cases second with
    | loop rest' => exact inductionHypothesis rest'

/-- `Exec` as a function; the fuel bounds the number of calls and loop turns. -/
def exec (kernel : Kernel S W) : Nat → Prog S ε α → W → Option (Outcome ε α × W)
  | 0, _, _ => none
  | _ + 1, .ret value, w => some (.returned value, w)
  | _ + 1, .abort error, w => some (.aborted error, w)
  | fuel + 1, .call c next, w =>
    match kernel c w with
    | none => none
    | some (answer, w') => exec kernel fuel (next answer) w'
  | fuel + 1, .loop body state next, w => exec kernel fuel (.unroll body state next) w

theorem exec_sound {kernel : Kernel S W} {fuel : Nat} {x : Prog S ε α} {w w' : W}
    {outcome : Outcome ε α}
    (done : exec kernel fuel x w = some (outcome, w')) : Exec kernel x w outcome w' := by
  induction fuel generalizing x w with
  | zero => simp [exec] at done
  | succ fuel inductionHypothesis =>
    cases x with
    | ret value =>
      simp only [exec, Option.some.injEq, Prod.mk.injEq] at done
      obtain ⟨rfl, rfl⟩ := done
      exact .ret value w
    | abort error =>
      simp only [exec, Option.some.injEq, Prod.mk.injEq] at done
      obtain ⟨rfl, rfl⟩ := done
      exact .abort error w
    | call c next =>
      simp only [exec] at done
      cases answers : kernel c w with
      | none => simp [answers] at done
      | some result =>
        rw [answers] at done
        exact .call answers (inductionHypothesis done)
    | loop body state next => exact .loop (inductionHypothesis done)

theorem Exec.bind {kernel : Kernel S W} {x : Prog S ε α} {f : α → Prog S ε β} {w w' w'' : W}
    {value : α}
    {outcome : Outcome ε β} (first : Exec kernel x w (.returned value) w')
    (second : Exec kernel (f value) w' outcome w'') : Exec kernel (x.bind f) w outcome w'' := by
  generalize same : Outcome.returned value = o at first
  induction first with
  | ret value w => cases same; exact second
  | abort error w => cases same
  | call answers rest inductionHypothesis => exact .call answers (inductionHypothesis second same)
  | loop rest inductionHypothesis =>
    refine .loop ?_
    rw [← Prog.unroll_bind]
    exact inductionHypothesis second same

/-- A sequence stops where its first part does. -/
theorem Exec.bind_aborted {kernel : Kernel S W} {x : Prog S ε α} {f : α → Prog S ε β} {w w' : W}
    {error : ε}
    (stops : Exec kernel x w (.aborted error) w') :
    Exec kernel (x.bind f) w (.aborted error) w' := by
  generalize same : Outcome.aborted error = o at stops
  induction stops with
  | ret value w => cases same
  | abort error w =>
    cases same
    exact .abort _ _
  | call answers rest inductionHypothesis => exact .call answers (inductionHypothesis same)
  | loop rest inductionHypothesis =>
    refine .loop ?_
    rw [← Prog.unroll_bind]
    exact inductionHypothesis same

theorem Exec.of_call {kernel : Kernel S W} {c : S.Call} {next : S.Answer c → Prog S ε α} {w w'' : W}
    {outcome : Outcome ε α}
    (runs : Exec kernel (.call c next) w outcome w'') :
    ∃ answer w', kernel c w = some (answer, w') ∧ Exec kernel (next answer) w' outcome w'' := by
  cases runs with
  | call answers rest => exact ⟨_, _, answers, rest⟩

/-- A sequence stops in its first part, or that part returns. -/
theorem Exec.of_bind {kernel : Kernel S W} {x : Prog S ε α} {f : α → Prog S ε β} {w w'' : W}
    {outcome : Outcome ε β}
    (runs : Exec kernel (x.bind f) w outcome w'') :
    (∃ error, outcome = .aborted error ∧ Exec kernel x w (.aborted error) w'') ∨
      ∃ value w', Exec kernel x w (.returned value) w' ∧ Exec kernel (f value) w' outcome w'' := by
  generalize whole : x.bind f = y at runs
  induction runs generalizing x with
  | ret value w =>
    cases x with
    | ret value' =>
      exact .inr ⟨value', w,
        .ret _ _, by rw [show f value' = .ret value from whole]; exact .ret _ _⟩
    | _ => cases whole
  | abort error w =>
    cases x with
    | ret value' =>
      exact .inr ⟨value', w,
        .ret _ _, by rw [show f value' = .abort error from whole]; exact .abort _ _⟩
    | abort error' =>
      cases whole
      exact .inl ⟨error, rfl, .abort _ _⟩
    | _ => cases whole
  | call answers rest inductionHypothesis =>
    cases x with
    | ret value' =>
      exact .inr ⟨value', _,
        .ret _ _, by rw [show f value' = _ from whole]; exact .call answers rest⟩
    | call c next =>
      cases whole
      rcases inductionHypothesis rfl with ⟨error, same, stops⟩ | ⟨value, w', returns, rest'⟩
      · exact .inl ⟨error, same, .call answers stops⟩
      · exact .inr ⟨value, w', .call answers returns, rest'⟩
    | _ => cases whole
  | loop rest inductionHypothesis =>
    cases x with
    | ret value' =>
      exact .inr ⟨value', _, .ret _ _, by rw [show f value' = _ from whole]; exact .loop rest⟩
    | loop body state next =>
      cases whole
      rcases inductionHypothesis (Prog.unroll_bind ..) with ⟨error, same, stops⟩ | ⟨value, w',
        returns, rest'⟩
      · exact .inl ⟨error, same, .loop stops⟩
      · exact .inr ⟨value, w', .loop returns, rest'⟩
    | _ => cases whole

theorem Exec.of_bind_returned {kernel : Kernel S W} {x : Prog S ε α} {f : α → Prog S ε β}
    {w w'' : W} {result : β}
    (runs : Exec kernel (x.bind f) w (.returned result) w'') :
    ∃ value w', Exec kernel x w (.returned value) w' ∧
      Exec kernel (f value) w' (.returned result) w'' := by
  obtain ⟨error, impossible, -⟩ | returned := runs.of_bind
  · cases impossible
  · exact returned

/-- What is left of a sequence once its first part has returned. -/
theorem Exec.after {kernel : Kernel S W} {x : Prog S ε α} {f : α → Prog S ε β} {w w' w'' : W}
    {value : α} {outcome : Outcome ε β}
    (runs : Exec kernel (x.bind f) w outcome w'') (first : Exec kernel x w (.returned value) w') :
    Exec kernel (f value) w' outcome w'' := by
  obtain ⟨error, -, stops⟩ | ⟨value', w₁, returns, rest⟩ := runs.of_bind
  · cases (first.deterministic stops).1
  · obtain ⟨same, rfl⟩ := first.deterministic returns
    cases same
    exact rest

/-! ## Code over a structure -/

/-- Code of a library whose functions all work on one C structure `L`. -/
abbrev Code (S : Signature) (ε L : Type) (α : Type) := StateT L (Prog S ε) α

namespace Code

def call (c : S.Call) : Code S ε L (S.Answer c) := fun l => .call c fun answer => .ret (answer, l)

/-- `err_dump`, `err_quit`: the process ends. -/
def abort (error : ε) : Code S ε L α := fun _ => .abort error

/-- `while`: the body returns the next loop variables, or the value with which the loop is left. -/
def loop (body : σ → Code S ε L (σ ⊕ β)) (state : σ) : Code S ε L β := fun l =>
  .loop (fun (state, l) => (body state l).bind fun
      | (.inl state, l) => .ret (.inl (state, l))
      | (.inr result, l) => .ret (.inr (result, l)))
    (state, l) .ret

section Branches

variable {kernel : Kernel S W} {test : Prop} [Decidable test] {m m' : Code S ε L α} {l : L}
    {w w' : W} {outcome : Outcome ε (α × L)}

theorem exec_if (holds : test) (runs : Exec kernel (m l) w outcome w') :
    Exec kernel ((if test then m else m') l) w outcome w' := by
  rwa [if_pos holds]

theorem exec_else (fails : ¬test) (runs : Exec kernel (m' l) w outcome w') :
    Exec kernel ((if test then m else m') l) w outcome w' := by
  rwa [if_neg fails]

end Branches

section Loop

variable {kernel : Kernel S W} {body : σ → Code S ε L (σ ⊕ β)} {state state' : σ} {l l' : L}
    {w w' w'' : W} {result : β} {error : ε}
  {outcome : Outcome ε (β × L)}

/-- A turn after which the loop goes on. -/
theorem exec_loop_again (turn : Exec kernel (body state l) w (.returned (.inl state', l')) w')
    (rest : Exec kernel (loop body state' l') w' outcome w'') :
    Exec kernel (loop body state l) w outcome w'' :=
  .loop (Exec.bind (Exec.bind turn (.ret _ _)) rest)

theorem exec_loop_leave (turn : Exec kernel (body state l) w (.returned (.inr result, l')) w') :
    Exec kernel (loop body state l) w (.returned (result, l')) w' :=
  .loop (Exec.bind (Exec.bind turn (.ret _ _)) (.ret _ _))

theorem exec_loop_stops (turn : Exec kernel (body state l) w (.aborted error) w') :
    Exec kernel (loop body state l) w (.aborted error) w' :=
  .loop (Exec.bind_aborted (Exec.bind_aborted turn))

end Loop

/-- The value with which the code returns, with the structure and the world it leaves. -/
def returns (kernel : Kernel S W) (fuel : Nat) (m : Code S ε L α) (state : L × W) :
    Option (α × L × W) :=
  match exec kernel fuel (m state.1) state.2 with
  | some (.returned (value, l), w) => some (value, l, w)
  | _ => none

theorem returns_sound {kernel : Kernel S W} {fuel : Nat} {m : Code S ε L α} {state : L × W}
    {value : α} {l : L} {w : W}
    (done : m.returns kernel fuel state = some (value, l, w)) :
    Exec kernel (m state.1) state.2 (.returned (value, l)) w := by
  unfold returns at done
  split at done
  case h_1 ran =>
    cases done
    exact exec_sound ran
  case h_2 => cases done

/-- The error with which the code aborts, and the world it leaves. -/
def aborts (kernel : Kernel S W) (fuel : Nat) (m : Code S ε L α) (state : L × W) : Option (ε × W) :=
  match exec kernel fuel (m state.1) state.2 with
  | some (.aborted error, w) => some (error, w)
  | _ => none

theorem aborts_sound {kernel : Kernel S W} {fuel : Nat} {m : Code S ε L α} {state : L × W}
    {error : ε} {w : W}
    (done : m.aborts kernel fuel state = some (error, w)) :
    Exec kernel (m state.1) state.2 (.aborted error) w := by
  unfold aborts at done
  split at done
  case h_1 ran =>
    cases done
    exact exec_sound ran
  case h_2 => cases done

end Code

end Apue.Base
