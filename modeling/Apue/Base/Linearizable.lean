import Apue.Base.RelyGuarantee
import Mathlib.Data.List.Induction

/-! # Linearizability

An atomic object is given by a relation `spec`: which result an operation may have in a state of the
object, and the state it leaves.  A history of invocations and responses is linearizable if one
effect for each completed operation, somewhere between its invocation and its response, can be put
into it so that the effects follow the specification.

The main result carries this from a rely-guarantee proof about the code: if the guarantee of every
system call is to leave the object alone or to be the effect of the caller's operation, every
history of a run is linearizable.
-/

namespace Apue.Base

/-- How far a process is with its operation: not in one, before its effect, after it. -/
inductive Status (Op Res : Type) where
  | idle
  | pending (op : Op)
  | done (op : Op) (res : Res)

structure Atomic (ι A Op Res : Type) where
  value : A
  status : ι → Status Op Res

inductive Mark (ι ε Op Res : Type) where
  | event (e : Event ι ε Op Res)
  | effect (p : ι)

variable {ι : Type} [DecidableEq ι] {ε A Op Res : Type}

def Atomic.setStatus (s : Atomic ι A Op Res) (p : ι) (status : Status Op Res) : Atomic ι A Op Res :=
  { s with status := Function.update s.status p status }

/-- What the operation of a process may answer, and the value it leaves; the specification may look
at the operations in progress. -/
abbrev Spec (ι A Op Res : Type) := Atomic ι A Op Res → Op → Res → A → Prop

inductive Atomic.Step (spec : Spec ι A Op Res) :
    Atomic ι A Op Res → Mark ι ε Op Res → Atomic ι A Op Res → Prop where
  | invoke {s : Atomic ι A Op Res} {p : ι} {op : Op} (idle : s.status p = .idle) :
      Step spec s (.event (.invoke p op)) (s.setStatus p (.pending op))
  | effect {s : Atomic ι A Op Res} {p : ι} {op : Op} {res : Res} {value : A} (pending : s.status p = .pending op)
      (allowed : spec s op res value) :
      Step spec s (.effect p) (Atomic.setStatus { s with value := value } p (.done op res))
  | respond {s : Atomic ι A Op Res} {p : ι} {op : Op} {res : Res} (done : s.status p = .done op res) :
      Step spec s (.event (.respond p op res)) (s.setStatus p .idle)

inductive Atomic.Run (spec : Spec ι A Op Res) :
    Atomic ι A Op Res → List (Mark ι ε Op Res) → Atomic ι A Op Res → Prop where
  | start (s : Atomic ι A Op Res) : Run spec s [] s
  | step {s s' s'' : Atomic ι A Op Res} {trace : List (Mark ι ε Op Res)} {mark : Mark ι ε Op Res}
      (earlier : Run spec s trace s') (last : Atomic.Step spec s' mark s'') :
        Run spec s (trace ++ [mark]) s''

/-- The history a trace shows. -/
def visible (trace : List (Mark ι ε Op Res)) : List (Event ι ε Op Res) :=
  trace.filterMap fun
    | .event e => some e
    | .effect _ => none

def Linearizable (spec : Spec ι A Op Res) (s : Atomic ι A Op Res)
    (history : List (Event ι ε Op Res))
    (s' : Atomic ι A Op Res) : Prop :=
  ∃ trace, Atomic.Run spec s trace s' ∧ visible trace = history

theorem Linearizable.start (spec : Spec ι A Op Res) (s : Atomic ι A Op Res) :
    Linearizable (ε := ε) spec s [] s := ⟨[], .start s, rfl⟩

theorem Linearizable.event {spec : Spec ι A Op Res} {s s' s'' : Atomic ι A Op Res}
    {history : List (Event ι ε Op Res)}
    {e : Event ι ε Op Res} (earlier : Linearizable spec s history s')
    (last : Atomic.Step spec s' (.event e) s'') :
    Linearizable spec s (history ++ [e]) s'' := by
  obtain ⟨trace, run, rfl⟩ := earlier
  exact ⟨trace ++ [.event e], .step run last, by simp [visible]⟩

theorem Linearizable.effect {spec : Spec ι A Op Res} {s s' s'' : Atomic ι A Op Res}
    {history : List (Event ι ε Op Res)}
    {p : ι} (earlier : Linearizable spec s history s')
    (last : Atomic.Step (ε := ε) spec s' (.effect p) s'') :
    Linearizable spec s history s'' := by
  obtain ⟨trace, run, rfl⟩ := earlier
  exact ⟨trace ++ [.effect p], .step run last, by simp [visible]⟩

/-- The operation the status is about. -/
def Status.About (op : Op) (status : Status Op Res) : Prop :=
  status = .pending op ∨ ∃ res, status = .done op res

theorem Status.About.unique {op op' : Op} {status : Status Op Res} (about : status.About op)
    (about' : status.About op') :
    op = op' := by
  rcases about with rfl | ⟨_, rfl⟩ <;> rcases about' with same | ⟨_, same⟩ <;> cases same <;> rfl

theorem Atomic.setStatus_self (s : Atomic ι A Op Res) (p : ι) (status : Status Op Res) :
    (s.setStatus p status).status p = status := by simp [Atomic.setStatus]

theorem Atomic.setStatus_other (s : Atomic ι A Op Res) {p q : ι} (status : Status Op Res)
    (other : q ≠ p) :
    (s.setStatus p status).status q = s.status q := by simp [Atomic.setStatus, other]

theorem Atomic.Step.of_effect {spec : Spec ι A Op Res} {s s' : Atomic ι A Op Res} {p : ι}
    (step : Atomic.Step (ε := ε) spec s (.effect p) s') :
    (∀ q, q ≠ p → s'.status q = s.status q) ∧ ∀ op, (s.status p).About op →
      (s'.status p).About op := by
  cases step with
  | effect pending allowed =>
    refine ⟨fun q other => Atomic.setStatus_other _ _ other, fun op about => ?_⟩
    rw [pending] at about
    rcases about with same | ⟨res, same⟩
    · cases same
      exact .inr ⟨_, Atomic.setStatus_self ..⟩
    · cases same

/-! ## When the effect happens -/

theorem Atomic.Run.last {spec : Spec ι A Op Res} {s s'' : Atomic ι A Op Res}
    {trace : List (Mark ι ε Op Res)} {mark : Mark ι ε Op Res}
    (run : Atomic.Run spec s (trace ++ [mark]) s'') :
    ∃ s', Atomic.Run spec s trace s' ∧ Atomic.Step spec s' mark s'' := by
  generalize whole : trace ++ [mark] = all at run
  cases run with
  | start => simp at whole
  | step earlier last =>
    obtain ⟨rfl, same⟩ := List.append_inj' whole rfl
    cases same
    exact ⟨_, earlier, last⟩

theorem Atomic.Run.split {spec : Spec ι A Op Res} {s s'' : Atomic ι A Op Res}
    {first second : List (Mark ι ε Op Res)}
    (run : Atomic.Run spec s (first ++ second) s'') :
    ∃ s', Atomic.Run spec s first s' ∧ Atomic.Run spec s' second s'' := by
  induction second using List.reverseRecOn generalizing s'' with
  | nil => exact ⟨s'', by simpa using run, .start s''⟩
  | append_singleton second mark inductionHypothesis =>
    rw [← List.append_assoc] at run
    obtain ⟨s₁, earlier, last⟩ := run.last
    obtain ⟨s', run, rest⟩ := inductionHypothesis earlier
    exact ⟨s', run, .step rest last⟩

omit [DecidableEq ι] in
/-- A trace splits where its history does, after an event. -/
theorem visible_split {trace : List (Mark ι ε Op Res)} {before after : List (Event ι ε Op Res)}
    {e : Event ι ε Op Res}
    (shows : visible trace = before ++ e :: after) :
    ∃ first second, trace = first ++ .event e :: second ∧ visible first = before ∧
      visible second = after := by
  induction trace generalizing before with
  | nil => simp [visible] at shows
  | cons mark trace inductionHypothesis =>
    cases mark with
    | effect p =>
      obtain ⟨first, second, rfl, isBefore, isAfter⟩ :=
        inductionHypothesis (show visible trace = before ++ e :: after from shows)
      exact ⟨.effect p :: first, second, rfl, isBefore, isAfter⟩
    | event e' =>
      have shows : e' :: visible trace = before ++ e :: after := shows
      cases before with
      | nil =>
        cases shows
        exact ⟨[], trace, rfl, rfl, rfl⟩
      | cons _ before =>
        obtain ⟨rfl, rest⟩ := List.cons.inj shows
        obtain ⟨first, second, rfl, isBefore, isAfter⟩ := inductionHypothesis rest
        exact ⟨.event _ :: first, second, rfl, congrArg _ isBefore, isAfter⟩

/-- The process an event is about. -/
def Event.proc : Event ι ε Op Res → ι
  | .invoke p _ => p
  | .respond p _ _ => p
  | .stop p _ => p

/-- The process has called `op` last, and nothing has been heard of it since. -/
def Called (p : ι) (op : Op) (before during : List (Event ι ε Op Res))
    (history : List (Event ι ε Op Res)) : Prop :=
  history = before ++ .invoke p op :: during ∧ ∀ e ∈ during, e.proc ≠ p

/-- At some moment of the operation its result was allowed. -/
def TookEffect (spec : Spec ι A Op Res) (s : Atomic ι A Op Res) (p : ι) (op : Op) (res : Res)
    (history : List (Event ι ε Op Res)) : Prop :=
  ∃ before first rest t value, Called p op before (first ++ rest) history ∧
    Linearizable spec s (before ++ .invoke p op :: first) t ∧ t.status p = .pending op ∧
      spec t op res value

/-- What a history says of the operation a process is in. -/
def Status.Explained (spec : Spec ι A Op Res) (s : Atomic ι A Op Res) (p : ι)
    (history : List (Event ι ε Op Res)) :
    Status Op Res → Prop
  | .idle => True
  | .pending op => ∃ before during, Called p op before during history
  | .done op res => TookEffect spec s p op res history

omit [DecidableEq ι] in
theorem Called.snoc {p : ι} {op : Op} {before during history : List (Event ι ε Op Res)}
    (called : Called p op before during history)
    {e : Event ι ε Op Res} (other : e.proc ≠ p) :
    Called p op before (during ++ [e]) (history ++ [e]) := by
  refine ⟨by simp [called.1], fun e' member => ?_⟩
  rcases List.mem_append.1 member with old | new
  · exact called.2 e' old
  · rw [List.mem_singleton.1 new]
    exact other

theorem Status.Explained.snoc {spec : Spec ι A Op Res} {s : Atomic ι A Op Res} {p : ι}
    {history : List (Event ι ε Op Res)}
    {status : Status Op Res} (explained : status.Explained spec s p history) {e : Event ι ε Op Res}
    (other : e.proc ≠ p) :
    status.Explained spec s p (history ++ [e]) := by
  cases status with
  | idle => trivial
  | pending op =>
    obtain ⟨before, during, called⟩ := explained
    exact ⟨before, _, called.snoc other⟩
  | done op res =>
    obtain ⟨before, first, rest, t, value, called, linear, pending, allowed⟩ := explained
    refine ⟨before, first, rest ++ [e], t, value, ?_, linear, pending, allowed⟩
    rw [← List.append_assoc]
    exact called.snoc other

theorem Atomic.Run.explained {spec : Spec ι A Op Res} {s s' : Atomic ι A Op Res}
    {trace : List (Mark ι ε Op Res)} {p : ι}
    (run : Atomic.Run spec s trace s') (idle : s.status p = .idle) :
    (s'.status p).Explained spec s p (visible trace) := by
  induction run with
  | start =>
    rw [idle]
    trivial
  | @step s₁ s₂ trace mark earlier last inductionHypothesis =>
    have linear : Linearizable spec s (visible trace) s₁ := ⟨trace, earlier, rfl⟩
    cases last with
    | @invoke q op idleQ =>
      rw [show visible (trace ++ [.event (.invoke q op)]) = visible trace ++
        [.invoke q op] by simp [visible]]
      by_cases same : q = p
      · subst same
        rw [Atomic.setStatus_self]
        exact ⟨visible trace, [], rfl, by simp⟩
      · rw [Atomic.setStatus_other _ _ (Ne.symm same)]
        exact inductionHypothesis.snoc same
    | @effect q op res value pending allowed =>
      rw [show visible (trace ++ [.effect q]) = visible trace by simp [visible]]
      by_cases same : q = p
      · subst same
        rw [Atomic.setStatus_self]
        rw [pending] at inductionHypothesis
        obtain ⟨before, during, called⟩ := inductionHypothesis
        exact ⟨before, during, [], s₁,
          value, by simpa using called, called.1 ▸ linear, pending, allowed⟩
      · rw [Atomic.setStatus_other _ _ (Ne.symm same)]
        exact inductionHypothesis
    | @respond q op res done =>
      rw [show visible (trace ++ [.event (.respond q op res)]) = visible trace ++
        [.respond q op res] by simp [visible]]
      by_cases same : q = p
      · subst same
        rw [Atomic.setStatus_self]
        trivial
      · rw [Atomic.setStatus_other _ _ (Ne.symm same)]
        exact inductionHypothesis.snoc same

/-- Each response was allowed at some moment since its invocation. -/
theorem Linearizable.took_effect {spec : Spec ι A Op Res} {s s' : Atomic ι A Op Res}
    {before after : List (Event ι ε Op Res)} {p : ι} {op : Op} {res : Res}
    (linear : Linearizable spec s (before ++ .respond p op res :: after) s')
    (idle : s.status p = .idle) :
    TookEffect spec s p op res before := by
  obtain ⟨trace, run, shows⟩ := linear
  obtain ⟨first, second, rfl, rfl, -⟩ := visible_split shows
  rw [List.append_cons] at run
  obtain ⟨s₂, earlier, -⟩ := run.split
  obtain ⟨s₁, run₁, last⟩ := earlier.last
  have done : s₁.status p = .done op res := by
    cases last with
    | respond done => exact done
  have explained := run₁.explained idle
  rwa [done] at explained

/-! ## From the code to the object -/

variable {S : Signature} {W Γ L : Type}

/-- The run respects the limits: whenever a process inside `op` is about to make a call, `limits`
holds. -/
def Within (limits : ι → Op → S.Call → W → Prop) (c : Config ι S ε W Op L Res) : Prop :=
  ∀ p op request next, c.procs p = .busy op (.call request next) → limits p op request c.world

/-- The call a process is about to make, with its operation. -/
def Proc.request : Proc S ε Op L Res → Option (Op × S.Call)
  | .busy op (.call request _) => some (op, request)
  | _ => none

omit [DecidableEq ι] in
theorem within_iff {limits : ι → Op → S.Call → W → Prop} {c : Config ι S ε W Op L Res} :
    Within limits c ↔ ∀ p, ∀ asked ∈ (c.procs p).request, limits p asked.1 asked.2 c.world := by
  constructor
  · intro within p asked asks
    unfold Proc.request at asks
    split at asks
    · rename_i busy
      cases asks
      exact within p _ _ _ busy
    · cases asks
  · intro within p op request next busy
    refine within p (op, request) ?_
    rw [busy]
    rfl

/-- What a rely-guarantee proof about the operations of a system consists of. -/
structure Implements (M : System ι S ε W Op L Res) (D : Discipline ι S W Γ)
    (limits : ι → Op → S.Call → W → Prop)
    (spec : Spec ι A Op Res) (object : Γ → Atomic ι A Op Res) (quiet : ι → L → Γ → Prop)
    (goal : ι → Op → Res × L → Γ → Prop) : Prop where
  kernel : D.kernel = M.kernel
  given : ∀ {p c σ}, (∀ op, ((object σ).status p).About op → limits p op c (D.world σ)) →
    D.env p c σ
  effect : ∀ {p σ τ}, D.guar p σ τ →
    object τ = object σ ∨ Atomic.Step (ε := ε) spec (object σ) (.effect p) (object τ)
  later : ∀ {p l σ τ}, D.rely p σ τ → quiet p l σ → quiet p l τ
  enter : ∀ {p l op σ}, quiet p l σ → D.inv σ → M.may p l op → (object σ).status p = .idle →
    ∃ τ, D.world τ = D.world σ ∧ D.inv τ ∧ (∀ q, q ≠ p → D.rely q σ τ) ∧
      object τ = (object σ).setStatus p (.pending op) ∧
        Safe D p (goal p op) (fun _ _ => False) (M.code op l) τ
  leave : ∀ {p l op res σ}, goal p op (res, l) σ → D.inv σ → (object σ).status p = .done op res ∧
    ∃ τ, D.world τ = D.world σ ∧ D.inv τ ∧ (∀ q, q ≠ p → D.rely q σ τ) ∧
      object τ = (object σ).setStatus p .idle ∧ quiet p l τ

/-- The proof of the process is where the process is. -/
def Proven (D : Discipline ι S W Γ) (object : Γ → Atomic ι A Op Res) (quiet : ι → L → Γ → Prop)
    (goal : ι → Op → Res × L → Γ → Prop) (σ : Γ) (p : ι) : Proc S ε Op L Res → Prop
  | .idle l => quiet p l σ ∧ (object σ).status p = .idle
  | .busy op x => Safe D p (goal p op) (fun _ _ => False) x σ ∧ ((object σ).status p).About op
  | .stopped _ => False

/-- The ghost state explains the configuration. -/
structure Explains (D : Discipline ι S W Γ) (object : Γ → Atomic ι A Op Res)
    (quiet : ι → L → Γ → Prop)
    (goal : ι → Op → Res × L → Γ → Prop) (σ : Γ) (c : Config ι S ε W Op L Res) : Prop where
  world : D.world σ = c.world
  inv : D.inv σ
  procs : ∀ p, Proven D object quiet goal σ p (c.procs p)

/-- The ghost state explains the processes `live`; of the others nothing is said. -/
structure ExplainsAmong (live : ι → Prop) (D : Discipline ι S W Γ) (object : Γ → Atomic ι A Op Res)
    (quiet : ι → L → Γ → Prop)
    (goal : ι → Op → Res × L → Γ → Prop) (σ : Γ) (c : Config ι S ε W Op L Res) : Prop where
  world : D.world σ = c.world
  inv : D.inv σ
  procs : ∀ p, live p → Proven D object quiet goal σ p (c.procs p)

section

variable {M : System ι S ε W Op L Res} {D : Discipline ι S W Γ}
    {limits : ι → Op → S.Call → W → Prop}
  {spec : Spec ι A Op Res} {object : Γ → Atomic ι A Op Res} {quiet : ι → L → Γ → Prop}
  {goal : ι → Op → Res × L → Γ → Prop} {live : ι →
    Prop} {σ τ : Γ} {c c' : Config ι S ε W Op L Res} {p : ι}

/-- What is proved of a process is still proved when the others have done what it relies on. -/
theorem Proven.later (implements : Implements M D limits spec object quiet goal)
    {proc : Proc S ε Op L Res}
    (proven : Proven D object quiet goal σ p proc) (relied : D.rely p σ τ)
    (status : (object τ).status p = (object σ).status p) :
    Proven D object quiet goal τ p proc := by
  cases proc with
  | idle l => exact ⟨implements.later relied proven.1, status.trans proven.2⟩
  | busy op x => exact ⟨proven.1.later relied, by rw [status]; exact proven.2⟩
  | stopped error => exact proven

/-- A step of `p` explained by `τ`: the others find what they rely on. -/
private theorem explains_setProc (implements : Implements M D limits spec object quiet goal)
    (explains : ExplainsAmong live D object quiet goal σ c) (fits : D.inv τ)
    (relied : ∀ q, q ≠ p → D.rely q σ τ)
    (others : ∀ q, q ≠ p → (object τ).status q = (object σ).status q) {proc : Proc S ε Op L Res}
    (own : Proven D object quiet goal τ p proc) {w : W} (world : D.world τ = w) :
    ExplainsAmong live D object quiet goal τ (Config.setProc { c with world := w } p proc) := by
  refine ⟨world, fits, fun q alive => ?_⟩
  by_cases same : q = p
  · subst same
    rw [Config.setProc_self]
    exact own
  · rw [Config.setProc_other _ _ same]
    exact (explains.procs q alive).later implements (relied q same) (others q same)

/-- A step of one of the processes that are explained. -/
theorem ExplainsAmong.step (implements : Implements M D limits spec object quiet goal)
    (explains : ExplainsAmong live D object quiet goal σ c) (alive : live p)
    (within : ∀ op request next, c.procs p = .busy op (.call request next) →
    limits p op request c.world)
    {events : List (Event ι ε Op Res)} (last : Step M p c events c') {s : Atomic ι A Op Res}
    {history : List (Event ι ε Op Res)}
    (earlier : Linearizable spec s history (object σ)) :
    ∃ τ, ExplainsAmong live D object quiet goal τ c' ∧
      Linearizable spec s (history ++ events) (object τ) := by
  have here := explains.procs p alive
  have world := explains.world
  have fits := explains.inv
  cases last with
  | invoke idle allowed =>
    rw [idle] at here
    obtain ⟨τ, same, fits', relied, moved, safe⟩ := implements.enter here.1 fits allowed here.2
    have others (q : ι) (other : q ≠ p) : (object τ).status q = (object σ).status q := by
      rw [moved, Atomic.setStatus_other _ _ other]
    refine ⟨τ, ?_, earlier.event (by rw [moved]; exact .invoke here.2)⟩
    refine explains_setProc implements explains fits' relied others ?_ (same.trans world)
    exact ⟨safe, .inl (by rw [moved, Atomic.setStatus_self])⟩
  | call busy answers =>
    rw [busy] at here
    obtain ⟨safe, about⟩ := here
    rw [List.append_nil]
    cases safe with
    | call T step rest =>
      have given : D.env p _ σ := implements.given fun op' about' => by
        have same : op' = _ := about'.unique about
        rw [same, world]
        exact within _ _ _ busy
      rw [← implements.kernel, ← world] at answers
      obtain ⟨τ, same, kept, fits', holds⟩ := step σ (D.rely_refl p σ) fits given _ _ answers
      have relied (q : ι) (other : q ≠ p) : D.rely q σ τ := D.guar_rely fits kept other
      rcases implements.effect kept with still | moved
      · refine ⟨τ, ?_, still ▸ earlier⟩
        refine explains_setProc implements explains fits' relied (fun q _ => by rw [still]) ?_ same
        exact ⟨rest _ τ holds, still ▸ about⟩
      · refine ⟨τ, ?_, earlier.effect moved⟩
        refine explains_setProc implements explains fits' relied moved.of_effect.1 ?_ same
        exact ⟨rest _ τ holds, moved.of_effect.2 _ about⟩
  | loop busy =>
    rw [busy] at here
    obtain ⟨safe, about⟩ := here
    rw [List.append_nil]
    cases safe with
    | loop turn =>
      refine ⟨σ, ?_, earlier⟩
      refine explains_setProc implements explains fits (fun q _ => D.rely_refl q σ)
        (fun _ _ => rfl) ?_ world
      exact ⟨turn, about⟩
  | respond busy =>
    rw [busy] at here
    obtain ⟨safe, about⟩ := here
    cases safe with
    | ret holds =>
      obtain ⟨done, τ, same, fits', relied, moved, rest⟩ :=
        implements.leave (holds σ (D.rely_refl p σ) fits) fits
      have others (q : ι) (other : q ≠ p) : (object τ).status q = (object σ).status q := by
        rw [moved, Atomic.setStatus_other _ _ other]
      refine ⟨τ, ?_, earlier.event (by rw [moved]; exact .respond done)⟩
      refine explains_setProc implements explains fits' relied others ?_ (same.trans world)
      exact ⟨rest, by rw [moved, Atomic.setStatus_self]⟩
  | stop busy =>
    rw [busy] at here
    cases here.1 with
    | abort holds => exact (holds σ (D.rely_refl p σ) fits).elim

omit [DecidableEq ι] in
theorem explains_iff :
    Explains D object quiet goal σ c ↔ ExplainsAmong (fun _ => True) D object quiet goal σ c :=
  ⟨fun all => ⟨all.world, all.inv, fun p _ => all.procs p⟩,
    fun among => ⟨among.world, among.inv, fun p => among.procs p trivial⟩⟩

theorem Explains.step (implements : Implements M D limits spec object quiet goal)
    (explains : Explains D object quiet goal σ c) (within : Within limits c)
    {events : List (Event ι ε Op Res)}
    (last : Step M p c events c') {s : Atomic ι A Op Res} {history : List (Event ι ε Op Res)}
    (earlier : Linearizable spec s history (object σ)) :
    ∃ τ, Explains D object quiet goal τ c' ∧
      Linearizable spec s (history ++ events) (object τ) := by
  obtain ⟨τ, among, linear⟩ :=
    (explains_iff.1 explains).step implements trivial (within p) last earlier
  exact ⟨τ, explains_iff.2 among, linear⟩

theorem Run.along_last {along : Config ι S ε W Op L Res → Prop} {history : List (Event ι ε Op Res)}
    (run : Run M along c history c') : along c' := by
  cases run with
  | start holds => exact holds
  | step _ _ holds => exact holds

/-- Every history of a run from an explained configuration is linearizable, and what it leads to is
explained. -/
theorem Explains.run (implements : Implements M D limits spec object quiet goal)
    (explains : Explains D object quiet goal σ c) {history : List (Event ι ε Op Res)}
    (run : Run M (Within limits) c history c') :
    ∃ τ, Explains D object quiet goal τ c' ∧ Linearizable spec (object σ) history (object τ) := by
  induction run with
  | start _ => exact ⟨σ, explains, .start spec _⟩
  | step earlier last _ inductionHypothesis =>
    obtain ⟨τ, explains', linear⟩ := inductionHypothesis
    exact explains'.step implements earlier.along_last last linear

end

end Apue.Base
