import Mathlib.Data.List.Forall2

/-! # Machines and their runs

A machine is a partial step function: an action is what happens next (a thread's critical section, a
file operation, a signal, with whatever the environment chose in it), and `none` says that the
action cannot happen in that state.  A run is the list of its actions.  Conditions on a run speak
about the states in which its actions are taken, so a bad step anywhere in the run can be named, and
`execute_invariant` needs the condition at those states only.
-/

namespace Apue.Base

variable {σ α : Type} {step : σ → α → Option σ} {s s' : σ} {actions : List α}

def execute (step : σ → α → Option σ) : σ → List α → Option σ
  | s, [] => some s
  | s, action :: actions =>
    match step s action with
    | none => none
    | some s' => execute step s' actions

/-- The run from `s` passes through `s'`. -/
def Visits (step : σ → α → Option σ) (s : σ) (actions : List α) (s' : σ) : Prop :=
  ∃ before after, actions = before ++ after ∧ execute step s before = some s'

/-- The run from `s` takes the action in the state `s'`. -/
def Takes (step : σ → α → Option σ) (s : σ) (actions : List α) (s' : σ) (action : α) : Prop :=
  ∃ before after, actions = before ++ action :: after ∧ execute step s before = some s'

theorem execute_append (s : σ) (before after : List α) :
    execute step s (before ++ after) = (execute step s before).bind fun s' =>
      execute step s' after := by
  induction before generalizing s with
  | nil => rfl
  | cons action before inductionHypothesis =>
    simp only [List.cons_append, execute]
    cases step s action with
    | none => rfl
    | some s' => exact inductionHypothesis s'

theorem Visits.finish (runs : execute step s actions = some s') : Visits step s actions s' :=
  ⟨actions, [], by simp, runs⟩

/-- A state that is visited is the last one, or an action is taken in it. -/
theorem Visits.finish_or_takes (visits : Visits step s actions s') :
    execute step s actions = some s' ∨ ∃ action, Takes step s actions s' action := by
  obtain ⟨before, after, split, runs⟩ := visits
  cases after with
  | nil =>
    rw [List.append_nil] at split
    exact .inl (split ▸ runs)
  | cons action after => exact .inr ⟨action, before, after, split, runs⟩

/-- The state an action is taken in is visited. -/
theorem Takes.visits {action : α} (takes : Takes step s actions s' action) :
    Visits step s actions s' := by
  obtain ⟨before, after, split, runs⟩ := takes
  exact ⟨before, action :: after, split, runs⟩

/-- Where a run that can be completed takes an action, the state after it is visited too. -/
theorem Takes.next {action : α} {final : σ} (whole : execute step s actions = some final)
    (takes : Takes step s actions s' action) :
    ∃ s'', step s' action = some s'' ∧ Visits step s actions s'' := by
  obtain ⟨before, after, split, runs⟩ := takes
  have rest : execute step s' (action :: after) = some final := by
    rw [split, execute_append, runs] at whole
    exact whole
  simp only [execute] at rest
  cases reaches : step s' action with
  | none => simp [reaches] at rest
  | some s'' =>
    have joined : execute step s (before ++ [action]) = some s'' := by
      rw [execute_append, runs]
      simp [execute, reaches]
    exact ⟨s'', rfl, before ++ [action], after, by simp [split], joined⟩

/-- What holds at the start and is kept by every action that meets the condition holds in every
state that is visited, and in every state in which an action is taken. -/
theorem execute_invariant {Inv : σ → Prop} {allowed : σ → α → Prop}
    (keeps : ∀ s action s', Inv s → allowed s action → step s action = some s' → Inv s')
    (start : Inv s)
    (runs : execute step s actions = some s')
    (meets : ∀ s₁ action, Takes step s actions s₁ action → allowed s₁ action) :
    Inv s' := by
  induction actions generalizing s with
  | nil =>
    cases runs
    exact start
  | cons action actions inductionHypothesis =>
    simp only [execute] at runs
    cases reaches : step s action with
    | none => simp [reaches] at runs
    | some next =>
      have first : allowed s action := meets s action ⟨[], actions, rfl, rfl⟩
      refine inductionHypothesis (keeps s action next start first reaches)
        (by simpa [reaches] using runs) ?_
      intro s₁ later takes
      obtain ⟨before, after, split, reached⟩ := takes
      have longer : execute step s (action :: before) = some s₁ := by
        simpa [execute, reaches] using reached
      exact meets s₁ later ⟨action :: before, after, by simp [split], longer⟩

theorem Visits.invariant (visits : Visits step s actions s') (Inv : σ → Prop)
    (allowed : σ → α → Prop) (start : Inv s)
    (keeps : ∀ s action s', Inv s → allowed s action → step s action = some s' → Inv s')
    (meets : ∀ s₁ action, Takes step s actions s₁ action → allowed s₁ action) : Inv s' := by
  obtain ⟨before, after, split, runs⟩ := visits
  apply execute_invariant keeps start runs
  intro s₁ action takes
  obtain ⟨earlier, later, split', reached⟩ := takes
  exact meets s₁ action ⟨earlier, later ++ after, by simp [split, split'], reached⟩

/-- A run whose actions all lower a potential comes to an end. -/
theorem execute_potential {Inv : σ → Prop} {allowed : α → Prop} {potential : σ → Nat}
    (falls : ∀ s action s', Inv s → allowed action → step s action = some s' →
    Inv s' ∧ potential s' < potential s) (start : Inv s)
    (runs : execute step s actions = some s') (meets : ∀ action ∈ actions, allowed action) :
    Inv s' ∧ potential s' + actions.length ≤ potential s := by
  induction actions generalizing s with
  | nil =>
    cases runs
    exact ⟨start, Nat.le_refl _⟩
  | cons action actions inductionHypothesis =>
    simp only [execute] at runs
    cases reaches : step s action with
    | none => simp [reaches] at runs
    | some next =>
      obtain ⟨kept, lower⟩ := falls s action next start (meets action List.mem_cons_self) reaches
      obtain ⟨final, bound⟩ := inductionHypothesis kept (by simpa [reaches] using runs)
        fun later member => meets later (List.mem_cons_of_mem action member)
      rw [List.length_cons]
      exact ⟨final, by omega⟩

/-- What each action adds, a run adds in the order of its actions. -/
theorem execute_collects {γ : Type*} {Inv : σ → Prop} {collected : σ → List γ} {yields : α → List γ}
    (adds : ∀ s action s', Inv s → step s action = some s' →
    Inv s' ∧ collected s' = collected s ++ yields action) (start : Inv s)
    (runs : execute step s actions = some s') :
    Inv s' ∧ collected s' = collected s ++ actions.flatMap yields := by
  induction actions generalizing s with
  | nil =>
    cases runs
    exact ⟨start, (List.append_nil _).symm⟩
  | cons action actions inductionHypothesis =>
    simp only [execute] at runs
    cases reaches : step s action with
    | none => simp [reaches] at runs
    | some next =>
      obtain ⟨kept, added⟩ := adds s action next start reaches
      obtain ⟨final, rest⟩ := inductionHypothesis kept (by simpa [reaches] using runs)
      exact ⟨final, by rw [rest, added, List.flatMap_cons, List.append_assoc]⟩

/-- Whether every action of the run is taken in a state that passes the test. -/
def allTaken (step : σ → α → Option σ) (test : σ → α → Bool) : σ → List α → Bool
  | _, [] => true
  | s, action :: actions =>
    test s action &&
      match step s action with
      | none => true
      | some s' => allTaken step test s' actions

theorem Takes.of_allTaken {test : σ → α → Bool} {action : α}
    (takes : Takes step s actions s' action)
    (passes : allTaken step test s actions = true) : test s' action = true := by
  obtain ⟨before, after, split, runs⟩ := takes
  induction before generalizing s actions with
  | nil =>
    simp only [List.nil_append] at split
    simp only [execute, Option.some.injEq] at runs
    subst split runs
    simp only [allTaken, Bool.and_eq_true] at passes
    exact passes.1
  | cons first before inductionHypothesis =>
    simp only [List.cons_append] at split
    subst split
    simp only [allTaken, Bool.and_eq_true] at passes
    simp only [execute] at runs
    cases reaches : step s first with
    | none => simp [reaches] at runs
    | some next =>
      simp only [reaches] at runs passes
      exact inductionHypothesis passes.2 rfl runs

/-! ## Machines that reply -/

section Replies

variable {τ β γ : Type} {serve : σ → α → Option (β × σ)} {abstract : τ → α → γ × τ}
    {allowed : σ → α → Prop} {t : τ}

/-- The replies to a series of calls, and the state behind them. -/
def dialogue (serve : σ → α → Option (β × σ)) : σ → List α → Option (List β × σ)
  | s, [] => some ([], s)
  | s, call :: calls => do
    let (reply, s) ← serve s call
    let (replies, s) ← dialogue serve s calls
    pure (reply :: replies, s)

/-- The replies of a machine that can always take the next call. -/
def answers (abstract : τ → α → γ × τ) : τ → List α → List γ × τ
  | t, [] => ([], t)
  | t, call :: calls =>
    let (answer, t) := abstract t call
    let (others, t) := answers abstract t calls
    (answer :: others, t)

/-- Every call is made in a state in which it is allowed. -/
def Along (serve : σ → α → Option (β × σ)) (allowed : σ → α → Prop) : σ → List α → Prop
  | _, [] => True
  | s, call :: calls =>
    allowed s call ∧ (serve s call).elim True fun next => Along serve allowed next.2 calls

/-- Whether it is, by way of the calls. -/
def decidableAlong [∀ s call, Decidable (allowed s call)] :
    ∀ s calls, Decidable (Along serve allowed s calls)
  | _, [] => .isTrue trivial
  | s, call :: calls =>
    have : Decidable ((serve s call).elim True fun next => Along serve allowed next.2 calls) :=
      match serve s call with
      | none => .isTrue trivial
      | some next => decidableAlong next.2 calls
    inferInstanceAs (Decidable (_ ∧ _))

instance [∀ s call, Decidable (allowed s call)] (s : σ) (calls : List α) :
    Decidable (Along serve allowed s calls) :=
  decidableAlong s calls

/-- A machine whose every call is answered like that of another, in related states, answers any
series of calls like it. -/
theorem dialogue_simulates (related : σ → τ → Prop) (agree : β → γ → Prop)
    (one : ∀ s t call, related s t → allowed s call → ∃ reply s', serve s call = some (reply, s') ∧
      agree reply (abstract t call).1 ∧ related s' (abstract t call).2)
    {s : σ} (start : related s t) {calls : List α} (along : Along serve allowed s calls) :
    ∃ replies s', dialogue serve s calls = some (replies, s') ∧
      List.Forall₂ agree replies (answers abstract t calls).1 ∧
      related s' (answers abstract t calls).2 := by
  induction calls generalizing s t with
  | nil => exact ⟨[], s, rfl, .nil, start⟩
  | cons call calls inductionHypothesis =>
    obtain ⟨first, others⟩ := along
    obtain ⟨reply, s₁, serves, agrees, next⟩ := one s t call start first
    rw [serves, Option.elim_some] at others
    obtain ⟨replies, s', runs, all, final⟩ := inductionHypothesis next others
    exact ⟨reply :: replies, s', by simp [dialogue, serves, runs], .cons agrees all, final⟩

section Kept

variable {keeps : σ → Prop} {fits : α → Prop}

/-- A machine that can take every call that fits, in the states of an invariant, can take a series
of them. -/
theorem dialogue_keeps
    (one : ∀ s call, keeps s → fits call → ∃ reply s', serve s call = some (reply, s') ∧ keeps s')
    {s : σ} (start : keeps s) {calls : List α} (all : ∀ call ∈ calls, fits call) :
    ∃ replies s', dialogue serve s calls = some (replies, s') ∧ keeps s' := by
  induction calls generalizing s with
  | nil => exact ⟨[], s, rfl, start⟩
  | cons call calls inductionHypothesis =>
    obtain ⟨first, others⟩ := List.forall_mem_cons.mp all
    obtain ⟨reply, s₁, serves, next⟩ := one s call start first
    obtain ⟨replies, s', runs, final⟩ := inductionHypothesis next others
    exact ⟨reply :: replies, s', by simp [dialogue, serves, runs], final⟩

/-- Two tests of a call that agree in the states of an invariant agree along a series of calls. -/
theorem along_iff {allowed' : σ → α → Prop}
    (one : ∀ s call, keeps s → fits call → ∃ reply s', serve s call = some (reply, s') ∧ keeps s')
    (same : ∀ s call, keeps s → fits call → (allowed s call ↔ allowed' s call)) {s : σ}
    (start : keeps s) {calls : List α}
    (all : ∀ call ∈ calls, fits call) :
    Along serve allowed s calls ↔ Along serve allowed' s calls := by
  induction calls generalizing s with
  | nil => exact Iff.rfl
  | cons call calls inductionHypothesis =>
    obtain ⟨first, others⟩ := List.forall_mem_cons.mp all
    obtain ⟨reply, s', serves, next⟩ := one s call start first
    rw [Along, Along, serves, Option.elim_some, Option.elim_some, inductionHypothesis next others,
      same s call start first]

/-- What holds of every call in the states of an invariant holds along any series of calls. -/
theorem along_of (one : ∀ s call, keeps s → allowed s call ∧
    ∀ reply s', serve s call = some (reply, s') → keeps s') {s : σ}
    (start : keeps s) (calls : List α) : Along serve allowed s calls := by
  induction calls generalizing s with
  | nil => exact trivial
  | cons call calls inductionHypothesis =>
    obtain ⟨holds, next⟩ := one s call start
    refine ⟨holds, ?_⟩
    cases serves : serve s call with
    | none => exact trivial
    | some result => exact inductionHypothesis (next result.1 result.2 serves)

end Kept

end Replies

end Apue.Base
