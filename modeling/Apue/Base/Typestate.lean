import Apue.Base.Interleaving

/-! # Following a program with a local state

A checker that walks over a program whatever its system calls answer: it keeps a local state `τ`
(the locks held, the place a descriptor stands at), asks `guard` before each call, moves by `next`
on each answer, and asks `stops` where the program aborts.  `Follows` holds when the checker never
complains and the program only returns where the postcondition holds.  Loops may run for ever, so
the definition counts steps.
-/

namespace Apue.Base

variable {S : Signature} {ε τ : Type} {α β γ σ L : Type}

structure Checker (S : Signature) (ε τ : Type) where
  guard : τ → S.Call → Prop
  next : τ → (c : S.Call) → S.Answer c → τ → Prop
  stops : τ → ε → Prop

namespace Checker

/-- No complaint in the first `n` steps. -/
def FollowsFor (K : Checker S ε τ) : Nat → τ → Prog S ε α → (α → τ → Prop) → Prop
  | 0, _, _, _ => True
  | _ + 1, t, .ret value, post => post value t
  | _ + 1, t, .abort error, _ => K.stops t error
  | n + 1, t, .call c rest, post =>
    K.guard t c ∧ ∀ answer t', K.next t c answer t' → FollowsFor K n t' (rest answer) post
  | n + 1, t, .loop body state rest, post => FollowsFor K n t (.unroll body state rest) post

def Follows (K : Checker S ε τ) (t : τ) (x : Prog S ε α) (post : α → τ → Prop) : Prop :=
  ∀ n, K.FollowsFor n t x post

variable {K : Checker S ε τ}

theorem Follows.ret {t : τ} {value : α} {post : α → τ → Prop} (holds : post value t) :
    K.Follows t (.ret value) post := by
  intro n
  cases n with
  | zero => trivial
  | succ n => exact holds

theorem Follows.abort {t : τ} {error : ε} {post : α → τ → Prop} (allowed : K.stops t error) :
    K.Follows t (.abort error) post := by
  intro n
  cases n with
  | zero => trivial
  | succ n => exact allowed

theorem Follows.call {t : τ} {c : S.Call} {rest : S.Answer c → Prog S ε α} {post : α → τ → Prop}
    (may : K.guard t c)
    (after : ∀ answer t', K.next t c answer t' → K.Follows t' (rest answer) post) :
    K.Follows t (.call c rest) post := by
  intro n
  cases n with
  | zero => trivial
  | succ n => exact ⟨may, fun answer t' moved => after answer t' moved n⟩

theorem Follows.of_call {t : τ} {c : S.Call} {rest : S.Answer c → Prog S ε α} {post : α → τ → Prop}
    (follows : K.Follows t (.call c rest) post) :
    K.guard t c ∧ ∀ answer t', K.next t c answer t' → K.Follows t' (rest answer) post :=
  ⟨(follows 1).1, fun answer t' moved n => (follows (n + 1)).2 answer t' moved⟩

theorem Follows.of_loop {t : τ} {body : σ → Prog S ε (σ ⊕ β)} {state : σ} {rest : β → Prog S ε α}
    {post : α → τ → Prop}
    (follows : K.Follows t (.loop body state rest) post) :
    K.Follows t (.unroll body state rest) post :=
  fun n => follows (n + 1)

theorem Follows.of_ret {t : τ} {value : α} {post : α → τ → Prop}
    (follows : K.Follows t (.ret value) post) :
    post value t := follows 1

/-- Sequencing, one step count at a time: what loops need. -/
theorem FollowsFor.bind {n : Nat} {t : τ} {x : Prog S ε α} {f : α → Prog S ε β} {M : α → τ → Prop}
    {post : β → τ → Prop} (first : K.FollowsFor n t x M)
    (second : ∀ m ≤ n, ∀ value t', M value t' → K.FollowsFor m t' (f value) post) :
    K.FollowsFor n t (x.bind f) post := by
  induction n generalizing t x with
  | zero => trivial
  | succ n inductionHypothesis =>
    cases x with
    | ret value => exact second (n + 1) (Nat.le_refl _) value t first
    | abort error => exact first
    | call c rest =>
      exact ⟨first.1, fun answer t' moved =>
        inductionHypothesis (first.2 answer t' moved) fun m fewer => second m (by omega)⟩
    | loop body state rest =>
      change K.FollowsFor n t (.unroll body state fun result => (rest result).bind f) post
      rw [← Prog.unroll_bind]
      exact inductionHypothesis first fun m fewer => second m (by omega)

theorem Follows.bind {t : τ} {x : Prog S ε α} {f : α → Prog S ε β} {mid : α → τ → Prop}
    {post : β → τ → Prop}
    (first : K.Follows t x mid) (second : ∀ value t', mid value t' → K.Follows t' (f value) post) :
    K.Follows t (x.bind f) post :=
  fun n => (first n).bind fun m _ value t' holds => second value t' holds m

/-! ## Code over a structure -/

/-- `Follows` for library code started on the structure `l`. -/
def Keeps (K : Checker S ε τ) (t : τ) (m : Code S ε L α) (l : L) (post : α → L → τ → Prop) : Prop :=
  K.Follows t (m l) fun result t' => post result.1 result.2 t'

theorem Keeps.pure {t : τ} {l : L} {value : α} {Q : α → L → τ → Prop} (holds : Q value l t) :
    K.Keeps t (Pure.pure value : Code S ε L α) l Q := .ret holds

theorem Keeps.bind {t : τ} {l : L} {m : Code S ε L α} {f : α → Code S ε L β} {M : α → L → τ → Prop}
    {post : β → L → τ → Prop} (first : K.Keeps t m l M)
    (second : ∀ value l' t', M value l' t' → K.Keeps t' (f value) l' post) :
    K.Keeps t (m >>= f) l post :=
  Follows.bind first fun result t' holds => second result.1 result.2 t' holds

theorem Keeps.abort {t : τ} {l : L} {error : ε} {post : α → L → τ → Prop}
    (allowed : K.stops t error) :
    K.Keeps t (Code.abort error : Code S ε L α) l post := Follows.abort allowed

theorem Keeps.get {t : τ} {l : L} {Q : L → L → τ → Prop} (holds : Q l l t) :
    K.Keeps t (MonadState.get : Code S ε L L) l Q := .ret holds

theorem Keeps.set {t : τ} {l N : L} {Q : PUnit → L → τ → Prop} (holds : Q ⟨⟩ N t) :
    K.Keeps t (MonadStateOf.set N : Code S ε L PUnit) l Q := .ret holds

theorem Keeps.modified {t : τ} {l : L} {f : L → L} {Q : PUnit → L → τ → Prop}
    (holds : Q ⟨⟩ (f l) t) :
    K.Keeps t (modify f : Code S ε L PUnit) l Q := .ret holds

theorem Keeps.getThen {t : τ} {l : L} {f : L → Code S ε L α} {post : α → L → τ → Prop}
    (rest : K.Keeps t (f l) l post) :
    K.Keeps t (MonadState.get >>= f) l post := rest

theorem Keeps.modifyThen {t : τ} {l : L} {f : L → L} {g : PUnit → Code S ε L α}
    {post : α → L → τ → Prop}
    (rest : K.Keeps t (g ⟨⟩) (f l) post) : K.Keeps t (modify f >>= g) l post := rest

theorem Keeps.call {t : τ} {l : L} {c : S.Call} {Q : S.Answer c → L → τ → Prop} (may : K.guard t c)
    (after : ∀ answer t', K.next t c answer t' → Q answer l t') :
    K.Keeps t (Code.call c : Code S ε L (S.Answer c)) l Q :=
  Follows.call may fun answer t' moved => .ret (after answer t' moved)

theorem Keeps.weaken {t : τ} {l : L} {m : Code S ε L α} {post post' : α → L → τ → Prop}
    (keeps : K.Keeps t m l post)
    (implies : ∀ value l' t', post value l' t' → post' value l' t') : K.Keeps t m l post' := by
  unfold Keeps
  rw [← Prog.bind_ret (m l)]
  exact Follows.bind keeps fun result t' holds => .ret (implies result.1 result.2 t' holds)

/-- A loop keeps its invariant from turn to turn, however often it turns. -/
theorem Keeps.loop {body : σ → Code S ε L (σ ⊕ β)} {I : σ → L → τ → Prop} {Q : β → L → τ → Prop}
    (turn : ∀ state l t, I state l t →
      K.Keeps t (body state) l fun result l' t' => result.elim (I · l' t') (Q · l' t'))
    {state : σ} {l : L} {t : τ} (start : I state l t) : K.Keeps t (Code.loop body state) l Q := by
  intro n
  induction n using Nat.strongRecOn generalizing state t l with
  | _ n inductionHypothesis =>
    cases n with
    | zero => trivial
    | succ n =>
      let mid : (σ × L) ⊕ (β × L) → τ → Prop := fun result t' =>
        result.elim (fun next => I next.1 next.2 t') (fun last => Q last.1 last.2 t')
      refine FollowsFor.bind (M := mid) (FollowsFor.bind (turn state l t start n) ?_) ?_
      · rintro m - ⟨result, l'⟩ t' holds
        cases m with
        | zero => trivial
        | succ m => cases result <;> exact holds
      · rintro m fewer (⟨state', l'⟩ | result) t' holds
        · exact inductionHypothesis m (by omega) holds
        · cases m with
          | zero => trivial
          | succ m => exact holds

/-- The code keeps the relation `I` between the structure and the local state. -/
structure Preserves (K : Checker S ε τ) (I : L → τ → Prop) (m : Code S ε L α) : Prop where
  keeps : ∀ {l t}, I l t → K.Keeps t m l fun _ l' t' => I l' t'

namespace Preserves

variable {I : L → τ → Prop}

theorem pure (value : α) : K.Preserves I (Pure.pure value : Code S ε L α) :=
  ⟨fun holds => .pure holds⟩

theorem abort {error : ε} (allowed : ∀ l t, I l t → K.stops t error) :
    K.Preserves I (Code.abort error : Code S ε L α) :=
  ⟨fun holds => .abort (allowed _ _ holds)⟩

theorem modified {f : L → L} (kept : ∀ l t, I l t → I (f l) t) :
    K.Preserves I (modify f : Code S ε L PUnit) :=
  ⟨fun holds => .modified (kept _ _ holds)⟩

theorem bind {m : Code S ε L α} {f : α → Code S ε L β} (first : K.Preserves I m)
    (second : ∀ value, K.Preserves I (f value)) :
    K.Preserves I (m >>= f) :=
      ⟨fun holds => (first.keeps holds).bind fun value _ _ holds' => (second value).keeps holds'⟩

theorem get {f : L → Code S ε L α} (second : ∀ l, K.Preserves I (f l)) :
    K.Preserves I (MonadState.get >>= f) :=
  .bind ⟨fun holds => .get holds⟩ second

theorem ite {c : Prop} [Decidable c] {m n : Code S ε L α} (yes : K.Preserves I m)
    (no : K.Preserves I n) :
    K.Preserves I (if c then m else n) := by
  split
  · exact yes
  · exact no

theorem loop {body : σ → Code S ε L (σ ⊕ β)} (turn : ∀ state, K.Preserves I (body state))
    (state : σ) :
    K.Preserves I (Code.loop body state) := by
  refine ⟨fun holds => Keeps.loop (I := fun _ l t => I l t) (fun state l t holds => ?_) holds⟩
  refine ((turn state).keeps holds).weaken fun result l' t' kept => ?_
  cases result <;> exact kept

theorem call {c : S.Call} (may : ∀ l t, I l t → K.guard t c)
    (after : ∀ l t answer t', I l t → K.next t c answer t' → I l t') :
    K.Preserves I (Code.call c : Code S ε L (S.Answer c)) :=
  ⟨fun holds => .call (may _ _ holds) fun answer t' moved => after _ _ answer t' holds moved⟩

end Preserves

/-! ## Running one program -/

/-- What the checker has found holds of every run: `rel` ties its local state to the shared
state. -/
theorem Follows.exec {W : Type} {kernel : Kernel S W} {R : τ → W → Prop}
    (step : ∀ {t w c answer w'}, R t w → K.guard t c → kernel c w = some (answer, w') →
    ∃ t', K.next t c answer t' ∧ R t' w')
    {x : Prog S ε α} {w w' : W} {outcome : Outcome ε α} (runs : Exec kernel x w outcome w') {t : τ}
    {post : α → τ → Prop}
    (follows : K.Follows t x post) (related : R t w) :
    ∃ t', R t' w' ∧ outcome.Satisfies (post · t') (K.stops t') := by
  induction runs generalizing t with
  | ret value w => exact ⟨t, related, follows.of_ret⟩
  | abort error w => exact ⟨t, related, follows 1⟩
  | call answers rest inductionHypothesis =>
    obtain ⟨may, after⟩ := follows.of_call
    obtain ⟨t', moved, related'⟩ := step related may answers
    exact inductionHypothesis (after _ t' moved) related'
  | loop rest inductionHypothesis => exact inductionHypothesis follows.of_loop related

/-- The checker whose local state is the shared state: it follows the program through the kernel. -/
def running {W : Type} (kernel : Kernel S W) (E : W → ε → Prop) : Checker S ε W where
  guard _ _ := True
  next w c answer w' := kernel c w = some (answer, w')
  stops := E

theorem Follows.running {W : Type} {kernel : Kernel S W} {E : W → ε → Prop} {x : Prog S ε α}
    {w w' : W} {outcome : Outcome ε α}
    {post : α → W → Prop} (follows : (running kernel E).Follows w x post)
    (runs : Exec kernel x w outcome w') :
    outcome.Satisfies (post · w') (E w') := by
  obtain ⟨w'', same, holds⟩ :=
    follows.exec (R := Eq) (fun same _ answers => ⟨_, same ▸ answers, rfl⟩) runs rfl
  rw [← same]
  exact holds

/-- The other way round: what holds of every run, the checker finds. -/
theorem Follows.of_runs {W : Type} {kernel : Kernel S W} {E : W → ε → Prop} {x : Prog S ε α} {w : W}
    {post : α → W → Prop}
    (all : ∀ outcome w', Exec kernel x w outcome w' → outcome.Satisfies (post · w') (E w')) :
    (Checker.running kernel E).Follows w x post := by
  intro n
  induction n generalizing x w with
  | zero => trivial
  | succ n inductionHypothesis =>
    cases x with
    | ret value => exact all _ _ (.ret value w)
    | abort error => exact all _ _ (.abort error w)
    | call c rest =>
      exact ⟨trivial, fun answer w' answers => inductionHypothesis fun outcome w'' runs =>
        all _ _ (.call answers runs)⟩
    | loop body state rest => exact inductionHypothesis fun outcome w' runs => all _ _ (.loop runs)

/-! ## Running many programs -/

section Running

variable {ι : Type} [DecidableEq ι] {W Op Res : Type}

/-- What ties a checker to a system: `rel` says which local state of a process fits the shared
state, `fit` is an invariant of the shared state, and `gone` holds of processes that have ended. -/
structure Sound (K : Checker S ε τ) (M : System ι S ε W Op L Res) (fit : W → Prop)
    (rel : ι → τ → W → Prop)
    (gone : ι → W → Prop) : Prop where
  step : ∀ {p t w c answer w'}, fit w → rel p t w → K.guard t c →
    M.kernel p c w = some (answer, w') →
    fit w' ∧ ∃ t', K.next t c answer t' ∧ rel p t' w'
  others : ∀ {p q t w c answer w'}, rel p t w → K.guard t c →
    M.kernel p c w = some (answer, w') → q ≠ p →
    (∀ t', rel q t' w → rel q t' w') ∧ (gone q w → gone q w')
  exit : ∀ {p w}, fit w → fit (M.exit p w) ∧ gone p (M.exit p w)
  exitOthers : ∀ {p q w}, q ≠ p → (∀ t', rel q t' w → rel q t' (M.exit p w)) ∧
    (gone q w → gone q (M.exit p w))

/-- Every process is where the checker can follow it. -/
def Followed (K : Checker S ε τ) (fit : W → Prop) (rel : ι → τ → W → Prop) (gone : ι → W → Prop)
    (rest : L → τ → Prop)
    (c : Config ι S ε W Op L Res) : Prop :=
  fit c.world ∧ ∀ p, match c.procs p with
    | .idle handle => ∃ t, rest handle t ∧ rel p t c.world
    | .busy _ x => ∃ t, rel p t c.world ∧ K.Follows t x fun result t' => rest result.2 t'
    | .stopped error => gone p c.world ∧ ∃ t, K.stops t error

variable {M : System ι S ε W Op L Res} {fit : W → Prop} {rel : ι → τ → W → Prop}
    {gone : ι → W → Prop}
  {rest : L → τ → Prop} {c c' : Config ι S ε W Op L Res} {events : List (Event ι ε Op Res)} {p : ι}

private theorem followed_setProc {w : W} {proc : Proc S ε Op L Res}
    (followed : Followed K fit rel gone rest c)
    (fits : fit w)
    (others : ∀ q, q ≠ p → (∀ t, rel q t c.world → rel q t w) ∧ (gone q c.world → gone q w))
    (own : match proc with
      | .idle handle => ∃ t, rest handle t ∧ rel p t w
      | .busy _ x => ∃ t, rel p t w ∧ K.Follows t x fun result t' => rest result.2 t'
      | .stopped error => gone p w ∧ ∃ t, K.stops t error) :
    Followed K fit rel gone rest (Config.setProc { c with world := w } p proc) := by
  refine ⟨fits, fun q => ?_⟩
  by_cases same : q = p
  · subst same
    rw [Config.setProc_self]
    exact own
  · rw [Config.setProc_other _ _ same, Config.setProc_world]
    have before := followed.2 q
    obtain ⟨keepsRel, keepsGone⟩ := others q same
    dsimp only
    split <;> rename_i atQ <;> rw [atQ] at before
    · obtain ⟨t, quiet, related⟩ := before
      exact ⟨t, quiet, keepsRel t related⟩
    · obtain ⟨t, related, follows⟩ := before
      exact ⟨t, keepsRel t related, follows⟩
    · exact ⟨keepsGone before.1, before.2⟩

theorem Followed.step (sound : Sound K M fit rel gone)
    (code : ∀ p handle op t, M.may p handle op → rest handle t →
      K.Follows t (M.code op handle) fun result t' => rest result.2 t')
    (followed : Followed K fit rel gone rest c) (last : Step M p c events c') :
    Followed K fit rel gone rest c' := by
  have here := followed.2 p
  cases last with
  | invoke idle allowed =>
    rw [idle] at here
    obtain ⟨t, quiet, related⟩ := here
    exact followed_setProc followed followed.1 (fun _ _ => ⟨fun _ => id, id⟩) ⟨t, related,
      code _ _ _ _ allowed quiet⟩
  | call busy answers =>
    rw [busy] at here
    obtain ⟨t, related, follows⟩ := here
    obtain ⟨may, after⟩ := follows.of_call
    obtain ⟨fits, t', moved, related'⟩ := sound.step followed.1 related may answers
    exact followed_setProc followed fits (fun _ other => sound.others related may answers other)
      ⟨t', related', after _ _ moved⟩
  | loop busy =>
    rw [busy] at here
    obtain ⟨t, related, follows⟩ := here
    exact followed_setProc followed followed.1 (fun _ _ => ⟨fun _ => id, id⟩) ⟨t, related,
      follows.of_loop⟩
  | respond busy =>
    rw [busy] at here
    obtain ⟨t, related, follows⟩ := here
    exact followed_setProc followed followed.1 (fun _ _ => ⟨fun _ => id, id⟩) ⟨t,
      follows.of_ret, related⟩
  | stop busy =>
    rw [busy] at here
    obtain ⟨t, related, follows⟩ := here
    obtain ⟨fits, ended⟩ := sound.exit followed.1
    exact followed_setProc followed fits (fun _ other => sound.exitOthers other)
      ⟨ended, t, follows 1⟩

end Running

end Checker

end Apue.Base
