import Apue.Base.Crash

/-! # What a process holds on to

A rely-guarantee proof for processes that are killed, or end on their own, and whose operations are
about no common object.  What holds of an idle process, of the result of an operation, and of a
process that is gone, is stable under what the others do, so in every state of a run it holds of all
of them at once.
-/

namespace Apue.Base

variable {ι : Type} [DecidableEq ι] {S : Signature} {ε W Op L Res Γ B : Type}

/-- What a proof about the operations of a system consists of. -/
structure Upholds (M : System ι S ε W Op L Res) (D : Discipline ι S W Γ) (quiet : ι → L → Γ → Prop)
    (goal : ι → Op → Res × L → Γ → Prop) (gone : ι → Γ → Prop) : Prop where
  kernel : D.kernel = M.kernel
  given : ∀ p c σ, D.env p c σ
  enter : ∀ {p l op σ}, quiet p l σ → D.inv σ → M.may p l op →
    Safe D p (goal p op) (fun _ _ => True) (M.code op l) σ
  leave : ∀ {p op res l σ}, goal p op (res, l) σ → D.inv σ → quiet p l σ
  later : ∀ {p l σ τ}, D.rely p σ τ → quiet p l σ → quiet p l τ
  past : ∀ {p σ τ}, D.rely p σ τ → gone p σ → gone p τ
  ends : ∀ p {σ}, D.inv σ → ∃ τ, D.world τ = M.exit p (D.world σ) ∧ D.inv τ ∧ (∀ q, q ≠ p → D.rely q σ τ) ∧ gone p τ

/-- What is proved of a process that is alive. -/
def Holding (D : Discipline ι S W Γ) (quiet : ι → L → Γ → Prop) (goal : ι → Op → Res × L → Γ → Prop)
    (gone : ι → Γ → Prop)
    (σ : Γ) (p : ι) : Proc S ε Op L Res → Prop
  | .idle l => quiet p l σ
  | .busy op x => Safe D p (goal p op) (fun _ _ => True) x σ
  | .stopped _ => gone p σ

/-- The ghost state upholds every process of the scene. -/
structure Upheld (D : Discipline ι S W Γ) (quiet : ι → L → Γ → Prop)
    (goal : ι → Op → Res × L → Γ → Prop) (gone : ι → Γ → Prop)
    (σ : Γ) (s : Scene ι S ε W Op L Res B) : Prop where
  world : D.world σ = s.config.world
  inv : D.inv σ
  alive : ∀ p ∉ s.dead, Holding D quiet goal gone σ p (s.config.procs p)
  dead : ∀ p ∈ s.dead, gone p σ

section

variable {M : System ι S ε W Op L Res} {D : Discipline ι S W Γ} {quiet : ι → L → Γ → Prop}
    {goal : ι → Op → Res × L → Γ → Prop}
  {gone : ι → Γ → Prop} {σ τ : Γ} {s s' : Scene ι S ε W Op L Res B} {p : ι}

omit [DecidableEq ι] in
theorem Holding.later (upholds : Upholds M D quiet goal gone) {proc : Proc S ε Op L Res}
    (holding : Holding D quiet goal gone σ p proc)
    (relied : D.rely p σ τ) : Holding D quiet goal gone τ p proc := by
  cases proc with
  | idle l => exact upholds.later relied holding
  | busy op x => exact Safe.later holding relied
  | stopped error => exact upholds.past relied holding

/-- The others find what they rely on. -/
theorem Upheld.others (upholds : Upholds M D quiet goal gone)
    (upheld : Upheld D quiet goal gone σ s) (fits : D.inv τ)
    (relied : ∀ q, q ≠ p → D.rely q σ τ) (alive : p ∉ s.dead) {proc : Proc S ε Op L Res}
    (own : Holding D quiet goal gone τ p proc)
    {w : W} (world : D.world τ = w) :
    Upheld D quiet goal gone τ { s with config := Config.setProc { s.config with world := w } p proc } where
  world := world
  inv := fits
  alive q aliveQ := by
    by_cases same : q = p
    · subst same
      rwa [Config.setProc_self]
    · rw [Config.setProc_other _ _ same]
      exact (upheld.alive q aliveQ).later upholds (relied q same)
  dead q isDead := upholds.past (relied q fun same => alive (same ▸ isDead)) (upheld.dead q isDead)

theorem Upheld.step (upholds : Upholds M D quiet goal gone) (upheld : Upheld D quiet goal gone σ s)
    (alive : p ∉ s.dead)
    {events : List (Event ι ε Op Res)} {c : Config ι S ε W Op L Res}
    (last : Step M p s.config events c) :
    ∃ τ, Upheld D quiet goal gone τ { s with config := c } := by
  have here := upheld.alive p alive
  have world := upheld.world
  have stays (q : ι) (_ : q ≠ p) : D.rely q σ σ := D.rely_refl q σ
  cases last with
  | invoke idle allowed =>
    rw [idle] at here
    refine ⟨σ, upheld.others upholds upheld.inv stays alive ?_ world⟩
    exact upholds.enter here upheld.inv allowed
  | call busy answers =>
    rw [busy] at here
    cases here with
    | call T step rest =>
      rw [← upholds.kernel, ← world] at answers
      obtain ⟨τ, same, kept, fits, holds⟩ :=
        step σ (D.rely_refl p σ) upheld.inv (upholds.given ..) _ _ answers
      have relied (q : ι) (other : q ≠ p) : D.rely q σ τ := D.guar_rely upheld.inv kept other
      refine ⟨τ, upheld.others upholds fits relied alive ?_ same⟩
      exact rest _ τ holds
  | loop busy =>
    rw [busy] at here
    cases here with
    | loop turn =>
      refine ⟨σ, upheld.others upholds upheld.inv stays alive ?_ world⟩
      exact turn
  | respond busy =>
    rw [busy] at here
    cases here with
    | ret holds =>
      refine ⟨σ, upheld.others upholds upheld.inv stays alive ?_ world⟩
      exact upholds.leave (holds σ (D.rely_refl p σ) upheld.inv) upheld.inv
  | stop busy =>
    obtain ⟨τ, same, fits, relied, away⟩ := upholds.ends p upheld.inv
    refine ⟨τ, upheld.others upholds fits relied alive ?_ (same.trans (by rw [world]))⟩
    exact away

theorem Upheld.kill {leave : B} (upholds : Upholds M D quiet goal gone)
    (upheld : Upheld D quiet goal gone σ s) :
    ∃ τ, Upheld D quiet goal gone τ ⟨{ s.config with world := M.exit p s.config.world },
      p :: s.dead, leave⟩ := by
  obtain ⟨τ, same, fits, relied, away⟩ := upholds.ends p upheld.inv
  refine ⟨τ, same.trans (by rw [upheld.world]), fits, fun q aliveQ => ?_, fun q isDead => ?_⟩
  · rw [List.mem_cons, not_or] at aliveQ
    exact (upheld.alive q aliveQ.2).later upholds (relied q aliveQ.1)
  · by_cases same : q = p
    · rwa [same]
    · exact upholds.past (relied q same)
        (upheld.dead q ((List.mem_cons.1 isDead).resolve_left same))

/-- Whoever is killed or ends, and when. -/
theorem CrashRun.upheld {K : Killing ι S W B} {limits : ι → Op → S.Call → W → Prop}
    {history : List (Event ι ε Op Res)}
    (upholds : Upholds M D quiet goal gone) (upheld : Upheld D quiet goal gone σ s)
    (run : CrashRun M K limits s history s') :
    ∃ τ, Upheld D quiet goal gone τ s' := by
  induction run with
  | start => exact ⟨σ, upheld⟩
  | step _ alive _ last inductionHypothesis =>
    obtain ⟨τ, upheld'⟩ := inductionHypothesis
    exact upheld'.step upholds alive last
  | kill _ alive inductionHypothesis =>
    obtain ⟨τ, upheld'⟩ := inductionHypothesis
    exact upheld'.kill upholds

/-- Nobody is killed. -/
theorem Run.upheld {along : Config ι S ε W Op L Res → Prop} {c c' : Config ι S ε W Op L Res}
    {debris : B}
    {history : List (Event ι ε Op Res)} (upholds : Upholds M D quiet goal gone)
    (upheld : Upheld D quiet goal gone σ (⟨c, [], debris⟩ : Scene ι S ε W Op L Res B))
    (run : Run M along c history c') :
    ∃ τ, Upheld D quiet goal gone τ (⟨c', [], debris⟩ : Scene ι S ε W Op L Res B) := by
  induction run with
  | start => exact ⟨σ, upheld⟩
  | step _ last _ inductionHypothesis =>
    obtain ⟨τ, upheld'⟩ := inductionHypothesis
    exact upheld'.step upholds List.not_mem_nil last

/-! ## An operation on its own -/

/-- The process goes on inside its operation, and nobody else does anything. -/
theorem CrashRun.inside {K : Killing ι S W B} {limits : ι → Op → S.Call → W → Prop}
    {history : List (Event ι ε Op Res)}
    {s₀ : Scene ι S ε W Op L Res B} {c : Config ι S ε W Op L Res} {dead : List ι} {debris : B}
    {op : Op} {x : Prog S ε (Res × L)}
    {w w' : W} {result : Res × L} (runs : Exec (M.kernel p) x w (.returned result) w')
    (earlier : CrashRun M K limits s₀ history ⟨Config.setProc { c with world := w } p
    (.busy op x), dead, debris⟩)
    (alive : p ∉ dead) (may : ∀ request w, limits p op request w ∧ K.avoids debris request) :
    CrashRun M K limits s₀ history
      ⟨Config.setProc { c with world := w' } p (.busy op (.ret result)), dead, debris⟩ := by
  generalize ends : Outcome.returned result = outcome at runs
  have step {w w' : W} {x x' : Prog S ε (Res × L)}
      (earlier : CrashRun M K limits s₀ history
        ⟨Config.setProc { c with world := w } p (.busy op x), dead, debris⟩)
      (last : Step M p (Config.setProc { c with world := w } p (.busy op x)) []
        (Config.setProc { Config.setProc { c with world := w } p (.busy op x) with world := w' } p
          (.busy op x'))) :
      CrashRun M K limits s₀ history ⟨Config.setProc { c with world := w' } p (.busy op x'), dead,
        debris⟩ := by
    have within : (Config.setProc { c with world := w } p (.busy op x)).Calls p fun op request =>
        limits p op request w ∧ K.avoids debris request := by
      intro op' request next busy
      rw [Config.setProc_self] at busy
      cases busy
      exact may request w
    have later := earlier.step alive within last
    rw [List.append_nil] at later
    simpa [Config.setProc, Function.update_idem] using later
  induction runs with
  | ret value w =>
    cases ends
    exact earlier
  | abort error w => cases ends
  | call answers rest inductionHypothesis =>
    exact inductionHypothesis (step earlier (.call (Config.setProc_self ..) answers)) ends
  | loop rest inductionHypothesis =>
    exact inductionHypothesis (step earlier (.loop (Config.setProc_self ..))) ends

/-- An idle process calls an operation, which returns before anybody else does anything. -/
theorem CrashRun.returns {K : Killing ι S W B} {limits : ι → Op → S.Call → W → Prop}
    {history : List (Event ι ε Op Res)}
    {s₀ : Scene ι S ε W Op L Res B} {op : Op} {l l' : L} {res : Res} {w' : W}
    (earlier : CrashRun M K limits s₀ history s)
    (alive : p ∉ s.dead) (idle : s.config.procs p = .idle l) (allowed : M.may p l op)
    (runs : Exec (M.kernel p) (M.code op l) s.config.world (.returned (res, l')) w')
    (may : ∀ request w, limits p op request w ∧ K.avoids s.debris request) :
    CrashRun M K limits s₀ (history ++ [.invoke p op] ++ [.respond p op res])
      { s with config := Config.setProc { s.config with world := w' } p (.idle l') } := by
  have first := earlier.step alive (fun op' request next busy => by rw [idle] at busy; cases busy)
    (.invoke idle allowed)
  have inside := first.inside (c := s.config) runs alive may
  have last := inside.step alive
    (fun op' request next busy => by rw [Config.setProc_self] at busy; cases busy)
    (.respond (Config.setProc_self ..))
  simpa [Config.setProc, Function.update_idem] using last

end

end Apue.Base
