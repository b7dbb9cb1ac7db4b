import Apue.Base.Interleaving

/-! # Rely and guarantee

A program logic for processes that interleave their system calls.  A `Discipline` fixes the states
`Γ` (the shared state with whatever ghost state the proof needs), an invariant of every state, what
a process may rely on while others run, and what it guarantees at each of its own calls.  `Safe` is
the meaning of a correctness statement about one program: it is inductive, so a safe program also
comes to an end.

`Triple` is what proofs use.  Its precondition is a state rather than a predicate: `Triple D p E σ m
l post` says that `m` is correct from every state in which `p` finds what it can rely on from `σ`,
and that it ends in a state in which `p` finds what it can rely on from some `σ'` of the
postcondition.  Interference is thus absorbed between any two calls, and a proof follows `σ` through
the code as if the process were alone.
-/

namespace Apue.Base

structure Discipline (ι : Type) (S : Signature) (W Γ : Type) where
  kernel : ι → Kernel S W
  world : Γ → W
  inv : Γ → Prop
  rely : ι → Γ → Γ → Prop
  guar : ι → Γ → Γ → Prop
  /-- What is assumed of the state when a process makes a call. -/
  env : ι → S.Call → Γ → Prop
  rely_refl : ∀ p σ, rely p σ σ
  rely_trans : ∀ {p σ σ' σ''}, rely p σ σ' → rely p σ' σ'' → rely p σ σ''
  guar_rely : ∀ {p q σ σ'}, inv σ → guar q σ σ' → p ≠ q → rely p σ σ'

variable {ι : Type} {S : Signature} {ε W Γ L α β σs : Type} {D : Discipline ι S W Γ} {p : ι}

/-- The program, run by `p` from `σ`, keeps the guarantee and the invariant at each call, comes to
an end, and ends in `Q` or aborts in `E`. -/
inductive Safe (D : Discipline ι S W Γ) (p : ι) (Q : α → Γ → Prop) (E : ε → Γ → Prop) :
    Prog S ε α → Γ → Prop where
  | ret {value : α} {σ : Γ} (holds : ∀ σ', D.rely p σ σ' → D.inv σ' → Q value σ') : Safe D p Q E (.ret value) σ
  | abort {error : ε} {σ : Γ} (holds : ∀ σ', D.rely p σ σ' → D.inv σ' → E error σ') : Safe D p Q E (.abort error) σ
  | call {c : S.Call} {next : S.Answer c → Prog S ε α} {σ : Γ} (T : S.Answer c → Γ → Prop)
      (step : ∀ σ', D.rely p σ σ' → D.inv σ' → D.env p c σ' → ∀ answer w,
        D.kernel p c (D.world σ') = some (answer, w) →
          ∃ τ, D.world τ = w ∧ D.guar p σ' τ ∧ D.inv τ ∧ T answer τ)
      (rest : ∀ answer τ, T answer τ → Safe D p Q E (next answer) τ) : Safe D p Q E (.call c next) σ
  | loop {σs β : Type} {body : σs → Prog S ε (σs ⊕ β)} {state : σs} {next : β → Prog S ε α} {σ : Γ}
      (turn : Safe D p Q E (.unroll body state next) σ) : Safe D p Q E (.loop body state next) σ

namespace Safe

variable {Q Q' : α → Γ → Prop} {R : β → Γ → Prop} {E E' : ε → Γ → Prop} {x : Prog S ε α} {σ σ' : Γ}

theorem later (safe : Safe D p Q E x σ) (relied : D.rely p σ σ') : Safe D p Q E x σ' := by
  induction safe with
  | ret holds => exact .ret fun τ passed => holds τ (D.rely_trans relied passed)
  | abort holds => exact .abort fun τ passed => holds τ (D.rely_trans relied passed)
  | call T step rest _ => exact .call T (fun τ passed => step τ (D.rely_trans relied passed)) rest
  | loop _ inductionHypothesis => exact .loop (inductionHypothesis relied)

theorem bind {f : α → Prog S ε β} (first : Safe D p Q E x σ)
    (second : ∀ value τ, Q value τ → Safe D p R E (f value) τ)
    (start : D.inv σ) : Safe D p R E (x.bind f) σ := by
  induction first with
  | ret holds => exact second _ _ (holds _ (D.rely_refl p _) start)
  | abort holds => exact .abort holds
  | call T step rest inductionHypothesis =>
    refine .call (fun answer τ => T answer τ ∧ D.inv τ) ?_ fun answer τ holds =>
      inductionHypothesis answer τ holds.1 holds.2
    intro τ passed fits given answer w answers
    obtain ⟨τ', same, kept, fits', holds⟩ := step τ passed fits given answer w answers
    exact ⟨τ', same, kept, fits', holds, fits'⟩
  | loop _ inductionHypothesis =>
    refine .loop ?_
    rw [← Prog.unroll_bind]
    exact inductionHypothesis start

theorem weaken (safe : Safe D p Q E x σ) (returns : ∀ value τ, Q value τ → Q' value τ)
    (aborts : ∀ error τ, E error τ → E' error τ) : Safe D p Q' E' x σ := by
  induction safe with
  | ret holds => exact .ret fun τ passed fits => returns _ τ (holds τ passed fits)
  | abort holds => exact .abort fun τ passed fits => aborts _ τ (holds τ passed fits)
  | call T step rest inductionHypothesis =>
    exact .call T step inductionHypothesis
  | loop _ inductionHypothesis => exact .loop inductionHypothesis

end Safe

/-! ## Triples -/

def Triple (D : Discipline ι S W Γ) (p : ι) (E : ε → Γ → Prop) (σ : Γ) (m : Code S ε L α) (l : L)
    (post : α → L → Γ → Prop) : Prop :=
  ∀ τ, D.rely p σ τ → D.inv τ →
    Safe D p (fun result τ' => D.inv τ' ∧ ∃ σ', post result.1 result.2 σ' ∧ D.rely p σ' τ')
    (fun error τ' => D.inv τ' ∧ ∃ σ', E error σ' ∧ D.rely p σ' τ') (m l) τ

namespace Triple

variable {E E' : ε → Γ → Prop} {σ : Γ} {l : L} {post post' : α → L → Γ → Prop}

theorem pure {value : α} (holds : post value l σ) :
    Triple D p E σ (Pure.pure value : Code S ε L α) l post :=
  fun _ relied _ => .ret fun _ passed fits => ⟨fits, σ, holds, D.rely_trans relied passed⟩

theorem abort {error : ε} (holds : E error σ) :
    Triple D p E σ (Code.abort error : Code S ε L α) l post :=
  fun _ relied _ => .abort fun _ passed fits => ⟨fits, σ, holds, D.rely_trans relied passed⟩

theorem bind {m : Code S ε L α} {f : α → Code S ε L β} {M : α → L → Γ → Prop}
    {post : β → L → Γ → Prop}
    (first : Triple D p E σ m l M)
    (second : ∀ value l' σ', M value l' σ' → Triple D p E σ' (f value) l' post) :
    Triple D p E σ (m >>= f) l post := by
  intro τ relied fits
  refine (first τ relied fits).bind ?_ fits
  rintro ⟨value, l'⟩ τ' ⟨fits', σ', holds, relied'⟩
  exact second value l' σ' holds τ' relied' fits'

/-- Some state the process may be in is always there to reason about. -/
theorem given {m : Code S ε L α} (rest : ∀ τ, D.rely p σ τ → D.inv τ → Triple D p E σ m l post) :
    Triple D p E σ m l post :=
  fun τ relied fits => rest τ relied fits τ relied fits

theorem get {f : L → Code S ε L α} (rest : Triple D p E σ (f l) l post) :
    Triple D p E σ (MonadState.get >>= f) l post := rest

theorem modified {f : L → L} {post : PUnit → L → Γ → Prop} (holds : post ⟨⟩ (f l) σ) :
    Triple D p E σ (modify f : Code S ε L PUnit) l post :=
  fun _ relied _ => .ret fun _ passed fits => ⟨fits, σ, holds, D.rely_trans relied passed⟩

theorem modifyThen {f : L → L} {g : PUnit → Code S ε L α}
    (rest : Triple D p E σ (g ⟨⟩) (f l) post) :
    Triple D p E σ (modify f >>= g) l post := rest

theorem weaken {m : Code S ε L α} (triple : Triple D p E σ m l post)
    (returns : ∀ value l' σ', post value l' σ' → post' value l' σ') : Triple D p E σ m l post' := by
  refine fun τ relied fits => (triple τ relied fits).weaken ?_ fun _ _ => id
  rintro ⟨value, l'⟩ τ' ⟨fits', σ', holds, relied'⟩
  exact ⟨fits', σ', returns value l' σ' holds, relied'⟩

/-- One system call: whatever the others have done before it, its step is explained by a state `τ`
in which `p` can rely on what it could rely on from some `σ'` of the postcondition. -/
theorem call {c : S.Call} {post : S.Answer c → L → Γ → Prop}
    (step : ∀ τ, D.rely p σ τ → D.inv τ → D.env p c τ → ∀ answer w, D.kernel p c
    (D.world τ) = some (answer, w) →
      ∃ τ' σ', D.world τ' = w ∧ D.guar p τ τ' ∧ D.inv τ' ∧ D.rely p σ' τ' ∧ post answer l σ') :
    Triple D p E σ (Code.call c : Code S ε L (S.Answer c)) l post := by
  intro τ relied _
  refine .call (fun answer τ' => ∃ σ', post answer l σ' ∧ D.rely p σ' τ') ?_ ?_
  · intro τ₁ passed fits given answer w answers
    obtain ⟨τ', σ', same, kept, fits', relied', holds⟩ :=
      step τ₁ (D.rely_trans relied passed) fits given answer w answers
    exact ⟨τ', same, kept, fits', σ', holds, relied'⟩
  · rintro answer τ' ⟨σ', holds, relied'⟩
    exact .ret fun _ passed fits => ⟨fits, σ', holds, D.rely_trans relied' passed⟩

/-- One turn of a loop, and the loop again from where the turn ends. -/
theorem loop {body : σs → Code S ε L (σs ⊕ β)} {state : σs} {post : β → L → Γ → Prop}
    (turn : Triple D p E σ (body state) l fun result l' σ' =>
      match result with
      | .inl state' => Triple D p E σ' (Code.loop body state') l' post
      | .inr value => post value l' σ') : Triple D p E σ (Code.loop body state) l post := by
  intro τ relied fits
  refine .loop ?_
  let M : (σs × L) ⊕ (β × L) → Γ → Prop := fun result τ' => D.inv τ' ∧ ∃ σ', D.rely p σ' τ' ∧
      match result with
    | .inl next => Triple D p E σ' (Code.loop body next.1) next.2 post
    | .inr last => post last.1 last.2 σ'
  refine Safe.bind (Q := M) ((turn τ relied fits).bind (fun (result, l') τ' holds => ?_) fits)
    (fun result τ' holds => ?_) fits
  · obtain ⟨fits', σ', holds, relied'⟩ := holds
    cases result with
    | inl state' =>
      exact .ret fun τ'' passed fits'' => ⟨fits'', σ', D.rely_trans relied' passed, holds⟩
    | inr value =>
      exact .ret fun τ'' passed fits'' => ⟨fits'', σ', D.rely_trans relied' passed, holds⟩
  · obtain ⟨fits', σ', relied', holds⟩ := holds
    cases result with
    | inl next => exact holds τ' relied' fits'
    | inr last =>
      exact .ret fun τ'' passed fits'' => ⟨fits'', σ', holds, D.rely_trans relied' passed⟩

end Triple

/-! ## A process on its own -/

/-- There is no other process. -/
def Alone (p : ι) : Prop := ∀ q, q = p

/-- A run of a safe program, with what all its steps together do: `R` holds of its ends if it is
reflexive and transitive and every step that keeps the guarantee has it. -/
theorem Safe.exec_along {R : Γ → Γ → Prop} (refl : ∀ σ, R σ σ)
    (trans : ∀ {σ σ' σ''}, R σ σ' → R σ' σ'' → R σ σ'')
    (step : ∀ {σ σ'}, D.guar p σ σ' → R σ σ') {Q : α → Γ → Prop} {E : ε → Γ → Prop}
    {x : Prog S ε α} {σ : Γ}
    (safe : Safe D p Q E x σ) (start : D.inv σ) (given : ∀ c σ, D.env p c σ)
    (moves : ∀ σ, D.inv σ → ∀ c, (D.kernel p c (D.world σ)).isSome) :
    ∃ outcome τ, Exec (D.kernel p) x (D.world σ) outcome (D.world τ) ∧ D.inv τ ∧ R σ τ ∧
      outcome.Satisfies (Q · τ) (E · τ) := by
  induction safe with
  | ret holds => exact ⟨_, _, .ret _ _, start, refl _, holds _ (D.rely_refl p _) start⟩
  | abort holds => exact ⟨_, _, .abort _ _, start, refl _, holds _ (D.rely_refl p _) start⟩
  | call T advance rest inductionHypothesis =>
    obtain ⟨⟨answer, w⟩, answers⟩ := Option.isSome_iff_exists.1 (moves _ start _)
    obtain ⟨τ, rfl, kept, fits, holds⟩ :=
      advance _ (D.rely_refl p _) start (given _ _) answer w answers
    obtain ⟨outcome, τ', runs, fits', along, result⟩ := inductionHypothesis answer τ holds fits
    exact ⟨outcome, τ', .call answers runs, fits', trans (step kept) along, result⟩
  | loop _ inductionHypothesis =>
    obtain ⟨outcome, τ, runs, fits, along, result⟩ := inductionHypothesis start
    exact ⟨outcome, τ, .loop runs, fits, along, result⟩

end Apue.Base
