import Apue.Base.Typestate

/-! # Killed at any call

`Cut kernel x w w'` says that the process running `x` from `w` may be killed in `w'`: after any
number of its calls, the last one included.  Of what the calls have changed, `view` is the part that
outlives the process.  Code is `Still` if no call of it changes the view, and happens `AtOnce` if a
single call makes the whole change; a sequence of such parts can be killed only between two of them.
-/

namespace Apue.Base

variable {S : Signature} {ε L W V α β σ : Type}

inductive Cut (kernel : Kernel S W) : Prog S ε α → W → W → Prop where
  | here (x : Prog S ε α) (w : W) : Cut kernel x w w
  | call {c : S.Call} {next : S.Answer c → Prog S ε α} {w w' w'' : W} {answer : S.Answer c}
      (answers : kernel c w = some (answer, w')) (rest : Cut kernel (next answer) w' w'') :
        Cut kernel (.call c next) w w''
  | loop {σ β : Type} {body : σ → Prog S ε (σ ⊕ β)} {state : σ} {next : β → Prog S ε α} {w w' : W}
      (rest : Cut kernel (.unroll body state next) w w') : Cut kernel (.loop body state next) w w'

/-- The state after so many of its calls; the fuel bounds the number of calls and loop turns. -/
def Prog.killed (kernel : Kernel S W) : Nat → Nat → Prog S ε α → W → Option W
  | _, 0, _, w => some w
  | fuel + 1, calls + 1, .call c next, w =>
    match kernel c w with
    | none => none
    | some (answer, w') => killed kernel fuel calls (next answer) w'
  | fuel + 1, calls + 1, .loop body state next, w =>
    killed kernel fuel (calls + 1) (.unroll body state next) w
  | _, _ + 1, _, _ => none

variable {kernel : Kernel S W} {w w' w'' : W}

theorem Prog.killed_sound {fuel calls : Nat} {x : Prog S ε α}
    (ends : x.killed kernel fuel calls w = some w') :
    Cut kernel x w w' := by
  induction fuel generalizing calls x w with
  | zero =>
    cases calls with
    | zero =>
      cases ends
      exact .here x _
    | succ calls => cases ends
  | succ fuel inductionHypothesis =>
    cases calls with
    | zero =>
      cases ends
      exact .here x _
    | succ calls =>
      cases x with
      | ret value => cases ends
      | abort error => cases ends
      | call c next =>
        rw [killed] at ends
        split at ends
        case h_1 => cases ends
        case h_2 answers => exact .call answers (inductionHypothesis ends)
      | loop body state next => exact .loop (inductionHypothesis ends)

/-- The end of a run is one of the places. -/
theorem Exec.cut {x : Prog S ε α} {outcome : Outcome ε α} (runs : Exec kernel x w outcome w') :
    Cut kernel x w w' := by
  induction runs with
  | ret value w => exact .here _ w
  | abort error w => exact .here _ w
  | call answers rest inductionHypothesis => exact .call answers inductionHypothesis
  | loop rest inductionHypothesis => exact .loop inductionHypothesis

/-- A sequence is cut in its first part, or after that part has returned. -/
theorem Cut.of_bind {x : Prog S ε α} {f : α → Prog S ε β} (cut : Cut kernel (x.bind f) w w') :
    Cut kernel x w w' ∨ ∃ value w₁, Exec kernel x w (.returned value) w₁ ∧
      Cut kernel (f value) w₁ w' := by
  generalize whole : x.bind f = y at cut
  induction cut generalizing x with
  | here y w => exact .inl (.here x w)
  | call answers rest inductionHypothesis =>
    cases x with
    | ret value =>
      exact .inr ⟨value, _, .ret _ _, by rw [show f value = _ from whole]; exact .call answers rest⟩
    | call c next =>
      cases whole
      obtain first | ⟨value, w₁, returns, second⟩ := inductionHypothesis rfl
      · exact .inl (.call answers first)
      · exact .inr ⟨value, w₁, .call answers returns, second⟩
    | _ => cases whole
  | loop rest inductionHypothesis =>
    cases x with
    | ret value =>
      exact .inr ⟨value, _, .ret _ _, by rw [show f value = _ from whole]; exact .loop rest⟩
    | loop body state next =>
      cases whole
      obtain first | ⟨value, w₁, returns, second⟩ := inductionHypothesis (Prog.unroll_bind ..)
      · exact .inl (.loop first)
      · exact .inr ⟨value, w₁, .loop returns, second⟩
    | _ => cases whole

theorem Cut.of_ret {value : α} (cut : Cut kernel (.ret value : Prog S ε α) w w') : w' = w := by
  cases cut
  rfl

/-- What a checker has found holds wherever the process is killed. -/
theorem Checker.Follows.cut {T : Type} {K : Checker S ε T} {R : T → W → Prop}
    (step : ∀ {t w c answer w'}, R t w → K.guard t c → kernel c w = some (answer, w') →
    ∃ t', K.next t c answer t' ∧ R t' w')
    {x : Prog S ε α} (cut : Cut kernel x w w') {t : T} {post : α → T → Prop}
    (follows : K.Follows t x post) (related : R t w) :
    ∃ t', R t' w' := by
  induction cut generalizing t with
  | here x w => exact ⟨t, related⟩
  | call answers rest inductionHypothesis =>
    obtain ⟨may, after⟩ := follows.of_call
    obtain ⟨t', moved, related'⟩ := step related may answers
    exact inductionHypothesis (after _ t' moved) related'
  | loop rest inductionHypothesis => exact inductionHypothesis follows.of_loop related

namespace Code

variable {view : W → V} {m m' : Code S ε L α} {f : α → Code S ε L β}

/-- No call changes the view. -/
def Still (kernel : Kernel S W) (view : W → V) (m : Code S ε L α) : Prop :=
  ∀ l w w', Cut kernel (m l) w w' → view w' = view w

/-- Killed anywhere on the way to its end, the code has changed nothing of the view, or all it is
going to. -/
def AtOnce (kernel : Kernel S W) (view : W → V) (m : Code S ε L α) : Prop :=
  ∀ l w w' outcome w'', Exec kernel (m l) w outcome w'' → Cut kernel (m l) w w' → view w' = view w ∨
    view w' = view w''

namespace Still

theorem pure (value : α) : Still kernel view (Pure.pure value : Code S ε L α) :=
  fun _ _ _ cut => by rw [cut.of_ret]

theorem abort (error : ε) : Still kernel view (Code.abort error : Code S ε L α) := by
  intro l w w' cut
  cases cut
  rfl

theorem bind (first : Still kernel view m) (second : ∀ value, Still kernel view (f value)) :
    Still kernel view (m >>= f) := by
  intro l w w' cut
  obtain inFirst | ⟨⟨value, l'⟩, w₁, returns, inSecond⟩ := Cut.of_bind cut
  · exact first l w w' inFirst
  · exact (second value l' w₁ w' inSecond).trans (first l w w₁ returns.cut)

theorem modified (f : L → L) : Still kernel view (modify f : Code S ε L PUnit) :=
  fun _ _ _ cut => by rw [cut.of_ret]

theorem ite {c : Prop} [Decidable c] (yes : Still kernel view m) (no : Still kernel view m') :
    Still kernel view (if c then m else m') := by
  split
  · exact yes
  · exact no

end Still

namespace AtOnce

theorem of_still (still : Still kernel view m) : AtOnce kernel view m :=
  fun l w w' _ _ _ cut => .inl (still l w w' cut)

theorem call (c : S.Call) : AtOnce kernel view (Code.call c : Code S ε L (S.Answer c)) := by
  intro l w w' outcome w'' runs cut
  obtain ⟨answer, w₁, answers, rest⟩ := Exec.of_call runs
  cases rest
  cases cut with
  | here => exact .inl rfl
  | call answers' rest =>
    rw [answers] at answers'
    cases answers'
    rw [rest.of_ret]
    exact .inr rfl

/-- What comes first changes nothing. -/
theorem after_still (first : Still kernel view m) (second : ∀ value, AtOnce kernel view (f value)) :
    AtOnce kernel view (m >>= f) := by
  intro l w w' outcome w'' runs cut
  obtain inFirst | ⟨⟨value, l'⟩, w₁, returns, inSecond⟩ := Cut.of_bind cut
  · exact .inl (first l w w' inFirst)
  · have same := first l w w₁ returns.cut
    rw [← same]
    have runs : Exec kernel ((m l).bind fun result => f result.1 result.2) w outcome w'' := runs
    exact second value l' w₁ w' outcome w'' (runs.after returns) inSecond

theorem get {f : L → Code S ε L α} (rest : ∀ l, AtOnce kernel view (f l)) :
    AtOnce kernel view (MonadState.get >>= f) :=
  fun l => rest l l

theorem modifyThen (g : L → L) {f : PUnit → Code S ε L α} (rest : AtOnce kernel view (f ⟨⟩)) :
    AtOnce kernel view (modify g >>= f) := fun l => rest (g l)

/-- What comes last changes nothing. -/
theorem then_still (first : AtOnce kernel view m) (second : ∀ value, Still kernel view (f value)) :
    AtOnce kernel view (m >>= f) := by
  intro l w w' outcome w'' runs cut
  obtain ⟨error, same, stops⟩ | ⟨⟨value, l'⟩, w₁, returns, rest⟩ := Exec.of_bind runs
  · cases same
    obtain inFirst | ⟨_, w₁, returns, -⟩ := Cut.of_bind cut
    · exact first l w w' _ w'' stops inFirst
    · cases (stops.deterministic returns).1
  · have same := second value l' w₁ w'' rest.cut
    obtain inFirst | ⟨⟨value', l''⟩, w₂, returns', inSecond⟩ := Cut.of_bind cut
    · rw [same]
      exact first l w w' _ w₁ returns inFirst
    · obtain ⟨isValue, rfl⟩ := returns.deterministic returns'
      cases isValue
      rw [same]
      exact .inr (second value l' w₁ w' inSecond)

theorem ite {c : Prop} [Decidable c] (yes : AtOnce kernel view m) (no : AtOnce kernel view m') :
    AtOnce kernel view (if c then m else m') := by
  split
  · exact yes
  · exact no

end AtOnce

/-- A sequence that returns is cut as its first part may be, or after it. -/
theorem AtOnce.cut_bind (first : AtOnce kernel view m) {l l' : L} {value : α} {w₁ : W}
    (returns : Exec kernel (m l) w (.returned (value, l')) w₁)
    (cut : Cut kernel ((m >>= f) l) w w') :
    view w' = view w ∨ view w' = view w₁ ∨ Cut kernel (f value l') w₁ w' := by
  obtain inFirst | ⟨⟨value', l''⟩, w₂, returns', inSecond⟩ := Cut.of_bind cut
  · exact (first l w w' _ w₁ returns inFirst).imp_right .inl
  · obtain ⟨isValue, rfl⟩ := returns.deterministic returns'
    cases isValue
    exact .inr (.inr inSecond)

end Code

end Apue.Base
