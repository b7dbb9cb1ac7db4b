import Apue.Base.Files
import Apue.Base.Linearizable
import Apue.Base.Typestate

/-! # Processes that are killed

A process may be killed between any two of its system calls, in the middle of an operation.  Nothing
it was going to do happens any more; the system drops what it held, and what it has left half done
is debris, which the others must keep away from.

The ghost state of a rely-guarantee proof goes on to hold for a dead process what the proof of the
others needs: a process that is never heard of again has only stopped taking steps.
-/

namespace Apue.Base

variable {ι : Type} [DecidableEq ι] {S : Signature} {ε W Op L Res A Γ B : Type}

/-- A configuration, the processes that have been killed, and what they have left. -/
structure Scene (ι : Type) (S : Signature) (ε W Op L Res B : Type) where
  config : Config ι S ε W Op L Res
  dead : List ι
  debris : B

/-- What a process leaves when it is killed, and which calls keep away from it. -/
structure Killing (ι : Type) (S : Signature) (W B : Type) where
  leave : ι → W → B → B
  avoids : B → S.Call → Prop

/-- The process is about to make a call only if the call satisfies `P`. -/
def Config.Calls (c : Config ι S ε W Op L Res) (p : ι) (P : Op → S.Call → Prop) : Prop :=
  ∀ op request next, c.procs p = .busy op (.call request next) → P op request

/-- A run in which processes are killed, and the others stay within the limits and away from the
debris. -/
inductive CrashRun (M : System ι S ε W Op L Res) (K : Killing ι S W B)
    (limits : ι → Op → S.Call → W → Prop) :
    Scene ι S ε W Op L Res B → List (Event ι ε Op Res) → Scene ι S ε W Op L Res B → Prop where
  | start (s : Scene ι S ε W Op L Res B) : CrashRun M K limits s [] s
  | step {s s' : Scene ι S ε W Op L Res B} {history events : List (Event ι ε Op Res)} {p : ι} {c : Config ι S ε W Op L Res}
      (earlier : CrashRun M K limits s history s') (alive : p ∉ s'.dead)
      (may : s'.config.Calls p fun op request => limits p op request s'.config.world ∧
        K.avoids s'.debris request)
      (last : Step M p s'.config events c) :
        CrashRun M K limits s (history ++ events) { s' with config := c }
  | kill {s s' : Scene ι S ε W Op L Res B} {history : List (Event ι ε Op Res)} {p : ι}
      (earlier : CrashRun M K limits s history s') (alive : p ∉ s'.dead) :
      CrashRun M K limits s history
        ⟨{ s'.config with world := M.exit p s'.config.world }, p :: s'.dead,
          K.leave p s'.config.world s'.debris⟩

/-- What the proof of the operations must add for processes that are killed: `kept dead debris w g`
says that `g` is the shared state `w` in which the dead processes still hold the debris. -/
structure Withstands (M : System ι S ε W Op L Res) (K : Killing ι S W B) (D : Discipline ι S W Γ)
    (limits : ι → Op → S.Call → W → Prop) (object : Γ → Atomic ι A Op Res)
    (kept : List ι → B → W → W → Prop) : Prop where
  call : ∀ {p dead debris w g c answer w'}, kept dead debris w g → p ∉ dead → K.avoids debris c →
    M.kernel p c w = some (answer, w') → ∃ g', M.kernel p c g = some (answer, g') ∧
      kept dead debris w' g'
  kill : ∀ {p dead debris w σ}, kept dead debris w (D.world σ) → p ∉ dead → D.inv σ → ∃ τ, D.inv τ ∧
    (∀ q, q ≠ p → D.rely q σ τ) ∧ object τ = object σ ∧
      kept (p :: dead) (K.leave p w debris) (M.exit p w) (D.world τ)
  limits : ∀ {p op c dead debris w g}, kept dead debris w g → limits p op c w → limits p op c g

section

variable {M : System ι S ε W Op L Res} {K : Killing ι S W B} {D : Discipline ι S W Γ}
    {limits : ι → Op → S.Call → W → Prop}
  {spec : Spec ι A Op Res} {object : Γ → Atomic ι A Op Res} {quiet : ι → L → Γ → Prop} {goal : ι →
    Op → Res × L → Γ → Prop}
  {kept : List ι → B → W → W → Prop} {s s' : Scene ι S ε W Op L Res B}
    {σ : Γ} {a : Atomic ι A Op Res}
  {history : List (Event ι ε Op Res)}

/-- The ghost state explains the processes that are alive. -/
structure Survives (D : Discipline ι S W Γ) (object : Γ → Atomic ι A Op Res)
    (quiet : ι → L → Γ → Prop)
    (goal : ι → Op → Res × L → Γ → Prop) (kept : List ι → B → W → W → Prop) (σ : Γ)
    (s : Scene ι S ε W Op L Res B) : Prop where
  kept : kept s.dead s.debris s.config.world (D.world σ)
  among : ExplainsAmong (· ∉ s.dead) D object quiet goal σ { s.config with world := D.world σ }

omit [DecidableEq ι] in
/-- A process that is alive does not end on its own. -/
theorem Survives.running (survives : Survives D object quiet goal kept σ s) {p : ι}
    (alive : p ∉ s.dead) {op : Op} {error : ε} :
    s.config.procs p ≠ .busy op (.abort error) ∧ s.config.procs p ≠ .stopped error := by
  have here := survives.among.procs p alive
  constructor
  · intro busy
    change Proven D object quiet goal σ p (s.config.procs p) at here
    rw [busy] at here
    cases here.1 with
    | abort holds => exact holds σ (D.rely_refl p σ) survives.among.inv
  · intro stopped
    change Proven D object quiet goal σ p (s.config.procs p) at here
    rw [stopped] at here
    exact here

theorem Survives.step (implements : Implements M D limits spec object quiet goal)
    (withstands : Withstands M K D limits object kept)
    (survives : Survives D object quiet goal kept σ s) {p : ι}
    (alive : p ∉ s.dead)
    (may : s.config.Calls p fun op request => limits p op request s.config.world ∧
    K.avoids s.debris request)
    {events : List (Event ι ε Op Res)} {c : Config ι S ε W Op L Res}
    (last : Step M p s.config events c)
    (earlier : Linearizable spec a history (object σ)) :
    ∃ τ, Survives D object quiet goal kept τ { s with config := c } ∧
      Linearizable spec a (history ++ events) (object τ) := by
  let ghost : Config ι S ε W Op L Res := { s.config with world := D.world σ }
  -- the same step where the dead still hold their debris
  have mirrored : ∃ c', Step M p ghost events c' ∧ c'.procs = c.procs ∧
      kept s.dead s.debris c.world c'.world := by
    cases last with
    | invoke idle allowed => exact ⟨_, .invoke idle allowed, rfl, survives.kept⟩
    | call busy answers =>
      obtain ⟨g', answers', kept'⟩ := withstands.call survives.kept alive (may _ _ _ busy).2 answers
      exact ⟨_, .call (c := ghost) busy answers', rfl, kept'⟩
    | loop busy => exact ⟨_, .loop busy, rfl, survives.kept⟩
    | respond busy => exact ⟨_, .respond busy, rfl, survives.kept⟩
    | stop busy => exact absurd busy (survives.running alive).1
  obtain ⟨c', step, procs, kept'⟩ := mirrored
  have within (op : Op) (request : S.Call) (next : S.Answer request → Prog S ε (Res × L))
      (busy : ghost.procs p = .busy op (.call request next)) : limits p op request ghost.world :=
    withstands.limits survives.kept (may op request next busy).1
  obtain ⟨τ, among, linear⟩ := survives.among.step implements alive within step earlier
  refine ⟨τ, ⟨?_, rfl, among.inv, fun q aliveQ => ?_⟩, linear⟩
  · rw [among.world]
    exact kept'
  · have here := among.procs q aliveQ
    rw [procs] at here
    exact here

theorem Survives.kill (implements : Implements M D limits spec object quiet goal)
    (withstands : Withstands M K D limits object kept)
    (survives : Survives D object quiet goal kept σ s) {p : ι}
    (alive : p ∉ s.dead) : ∃ τ, Survives D object quiet goal kept τ
      ⟨{ s.config with world := M.exit p s.config.world }, p :: s.dead,
        K.leave p s.config.world s.debris⟩ ∧
        object τ = object σ := by
  obtain ⟨τ, inv, relied, same, kept'⟩ := withstands.kill survives.kept alive survives.among.inv
  refine ⟨τ, ⟨kept', rfl, inv, fun q aliveQ => ?_⟩, same⟩
  rw [List.mem_cons, not_or] at aliveQ
  obtain ⟨other, still⟩ := aliveQ
  exact (survives.among.procs q still).later implements (relied q other) (by rw [same])

/-- Whoever is killed, and when: the history of the others is linearizable, and they are
explained. -/
theorem CrashRun.survives (implements : Implements M D limits spec object quiet goal)
    (withstands : Withstands M K D limits object kept)
    (survives : Survives D object quiet goal kept σ s)
    (run : CrashRun M K limits s history s') :
    ∃ τ, Survives D object quiet goal kept τ s' ∧
      Linearizable spec (object σ) history (object τ) := by
  induction run with
  | start => exact ⟨σ, survives, .start spec _⟩
  | step earlier alive may last inductionHypothesis =>
    obtain ⟨τ, survives', linear⟩ := inductionHypothesis
    exact survives'.step implements withstands alive may last linear
  | kill earlier alive inductionHypothesis =>
    obtain ⟨τ, survives', linear⟩ := inductionHypothesis
    obtain ⟨τ', survives'', same⟩ := survives'.kill implements withstands alive
    exact ⟨τ', survives'', same ▸ linear⟩

end

/-! ## A process that runs alone -/

section

variable {D : Discipline ι S W Γ} {α : Type} {p : ι}

omit [DecidableEq ι] in
/-- A safe program runs to its end if none of the calls a checker lets it make blocks. -/
theorem Safe.exec_guided {T : Type} {K : Checker S ε T} {R : T → Γ → Prop} {Q : α → Γ → Prop}
    {E : ε → Γ → Prop}
    {x : Prog S ε α} {σ : Γ} (safe : Safe D p Q E x σ) {t : T} {post : α → T → Prop}
    (follows : K.Follows t x post)
    (related : R t σ) (start : D.inv σ) (given : ∀ c σ, D.env p c σ)
    (moves : ∀ {t σ c}, R t σ → D.inv σ → K.guard t c → (D.kernel p c (D.world σ)).isSome)
    (step : ∀ {t σ c answer τ}, R t σ → D.inv σ → K.guard t c →
    D.kernel p c (D.world σ) = some (answer, D.world τ) →
      D.guar p σ τ → ∃ t', K.next t c answer t' ∧ R t' τ) :
    ∃ outcome t' τ, Exec (D.kernel p) x (D.world σ) outcome (D.world τ) ∧ D.inv τ ∧ R t' τ ∧
      outcome.Satisfies (Q · τ) (E · τ) := by
  induction safe generalizing t with
  | ret holds => exact ⟨_, t, _, .ret _ _, start, related, holds _ (D.rely_refl p _) start⟩
  | abort holds => exact ⟨_, t, _, .abort _ _, start, related, holds _ (D.rely_refl p _) start⟩
  | call T advance rest inductionHypothesis =>
    obtain ⟨may, after⟩ := follows.of_call
    obtain ⟨⟨answer, w⟩, answers⟩ := Option.isSome_iff_exists.1 (moves related start may)
    obtain ⟨τ, rfl, kept, fits, holds⟩ :=
      advance _ (D.rely_refl p _) start (given _ _) answer w answers
    obtain ⟨t₁, moved, related'⟩ := step related start may answers kept
    obtain ⟨outcome, t', τ', runs, fits', related'', result⟩ :=
      inductionHypothesis answer τ holds (after _ t₁ moved) related' fits
    exact ⟨outcome, t', τ', .call answers runs, fits', related'', result⟩
  | loop _ inductionHypothesis =>
    obtain ⟨outcome, t', τ, runs, fits, related', result⟩ :=
      inductionHypothesis follows.of_loop related start
    exact ⟨outcome, t', τ, .loop runs, fits, related', result⟩

end

/-! ## Files and record locks -/

section

variable {φ : Type} [DecidableEq φ] {dead : List ι} {debris locks : Locks ι φ}
    {w w' g : World ι φ} {p : ι}

/-- A process that is killed leaves behind what it had locked to write; what it was reading is as it
was. -/
def writeLocks (ι φ : Type) [DecidableEq ι] [DecidableEq φ] :
    Killing ι (FileSig φ) (World ι φ) (Locks ι φ) where
  leave p w debris := w.locks.filter (fun (q, l) => q = p ∧ l.type = .write) ++ debris
  avoids debris
    | .setlkw file type range =>
      ∀ q l, (q, l) ∈ debris → (⟨file, type, range⟩ : Lock φ).conflicts l = false
    | _ => True

/-- `g` is `w`, with the locks the dead have left. -/
structure Haunted (dead : List ι) (debris : Locks ι φ) (w g : World ι φ) : Prop where
  same : g = { w with locks := g.locks }
  locks : ∀ q l, (q, l) ∈ g.locks ↔ (q, l) ∈ w.locks ∨ (q, l) ∈ debris
  gone : ∀ {q l}, (q, l) ∈ debris → q ∈ dead
  alive : ∀ {q l}, (q, l) ∈ w.locks → q ∉ dead

theorem Locks.mem_release_union {p : ι} {file : φ} {range : Range} {more : Locks ι φ}
    (union : ∀ q l, (q, l) ∈ locks ↔ (q, l) ∈ more ∨ (q, l) ∈ debris)
    (foreign : ∀ l, (p, l) ∉ debris) (q : ι) (l : Lock φ) :
    (q, l) ∈ Locks.release p file range locks ↔ (q, l) ∈ Locks.release p file range more ∨
    (q, l) ∈ debris := by
  by_cases own : q = p
  · subst own
    simp only [Locks.release, List.mem_flatMap, foreign, or_false]
    constructor
    · rintro ⟨⟨r, m⟩, held, left⟩
      rcases (union r m).1 held with here | there
      · exact ⟨(r, m), here, left⟩
      · -- what another process has left is not its own
        have other : r ≠ q := by
          rintro rfl
          exact foreign m there
        simp only [other, false_and, if_false, List.mem_singleton, Prod.mk.injEq] at left
        exact absurd left.1.symm other
    · rintro ⟨⟨r, m⟩, held, left⟩
      exact ⟨(r, m), (union r m).2 (.inl held), left⟩
  · rw [Locks.mem_release_other own, Locks.mem_release_other own]
    exact union q l

theorem Locks.blocked_of_subset {l : Lock φ} {more : Locks ι φ}
    (subset : ∀ q m, (q, m) ∈ locks → (q, m) ∈ more)
    (granted : Locks.blocked p l more = false) : Locks.blocked p l locks = false := by
  rw [Locks.not_blocked] at granted ⊢
  exact fun q m held => granted q m (subset q m held)

/-- A call that keeps away from the debris is answered as if the debris were not there. -/
theorem Haunted.call (haunted : Haunted dead debris w g) (alive : p ∉ dead) {c : FileCall φ}
    {answer : FileCall.Answer c}
    (avoids : (writeLocks ι φ).avoids debris c) (answers : fileKernel p c w = some (answer, w')) :
    ∃ g', fileKernel p c g = some (answer, g') ∧ Haunted dead debris w' g' := by
  have foreign (l : Lock φ) : (p, l) ∉ debris := fun left => alive (haunted.gone left)
  have others {q : ι} {l : Lock φ} (other : q ≠ p) (held : (q, l) ∈ w'.locks) : q ∉ dead :=
    haunted.alive ((fileKernel_locks_other answers other).1 held)
  have living {q : ι} {l : Lock φ} (held : (q, l) ∈ w'.locks) : q ∉ dead := by
    by_cases own : q = p
    · exact own ▸ alive
    · exact others own held
  have keeps (same : w'.locks = w.locks) : Haunted dead debris w' { w' with locks := g.locks } :=
    ⟨rfl, fun q l => by rw [same]; exact haunted.locks q l, haunted.gone, living⟩
  rw [haunted.same]
  cases c with
  | openFile file creat trunc =>
    simp only [fileKernel] at answers ⊢
    split at answers <;> cases answers <;> rename_i test
    · rw [if_pos test]
      exact ⟨_, rfl, keeps rfl⟩
    · rw [if_neg test]
      exact ⟨_, rfl, keeps rfl⟩
  | close file =>
    cases answers
    refine ⟨_, rfl, rfl, fun q l => ?_, haunted.gone, living⟩
    simp only [Locks.releaseFile, List.mem_filter, haunted.locks, or_and_right]
    refine or_congr_right ⟨And.left, fun left => ⟨left, ?_⟩⟩
    have other : q ≠ p := fun own => foreign l (own ▸ left)
    simp [other]
  | lseek file offset whence =>
    have target : World.target { w with locks := g.locks } p file offset whence =
        w.target p file offset whence := by
      cases whence <;> rfl
    simp only [fileKernel, target] at answers ⊢
    split at answers <;> cases answers <;> rename_i test
    · rw [if_pos test]
      exact ⟨_, rfl, keeps rfl⟩
    · rw [if_neg test]
      exact ⟨_, rfl, keeps rfl⟩
  | read file count =>
    cases answers
    exact ⟨_, rfl, keeps rfl⟩
  | write file buffer =>
    cases answers
    exact ⟨_, rfl, keeps rfl⟩
  | fstat file =>
    cases answers
    exact ⟨_, rfl, keeps rfl⟩
  | setlkw file type range =>
    simp only [fileKernel] at answers ⊢
    split at answers
    · cases answers
    · rename_i granted
      cases answers
      rw [Bool.not_eq_true, Locks.not_blocked] at granted
      have granted' : Locks.blocked p ⟨file, type, range⟩ g.locks = false := by
        rw [Locks.not_blocked]
        intro q m held other
        rcases (haunted.locks q m).1 held with here | left
        · exact granted q m here other
        · exact avoids q m left
      rw [if_neg (by simp [granted'])]
      refine ⟨_, rfl, rfl, fun q l => ?_, haunted.gone, living⟩
      simp only [Locks.acquire, List.mem_cons,
        Locks.mem_release_union haunted.locks foreign, or_assoc]
  | unlock file range =>
    cases answers
    exact ⟨_, rfl, rfl, Locks.mem_release_union haunted.locks foreign, haunted.gone, living⟩

/-- A call the debris does not stand in the way of is answered without it in the same way. -/
theorem Haunted.call_back (haunted : Haunted dead debris w g) (alive : p ∉ dead) {c : FileCall φ}
    {answer : FileCall.Answer c}
    {g' : World ι φ} (answers : fileKernel p c g = some (answer, g')) :
    ∃ w', fileKernel p c w = some (answer, w') ∧ Haunted dead debris w' g' := by
  have foreign (l : Lock φ) : (p, l) ∉ debris := fun left => alive (haunted.gone left)
  have avoids : (writeLocks ι φ).avoids debris c := by
    cases c with
    | setlkw file type range =>
      intro q l left
      simp only [fileKernel] at answers
      split at answers
      · cases answers
      · rename_i granted
        rw [Bool.not_eq_true, Locks.not_blocked] at granted
        exact granted q l ((haunted.locks q l).2 (.inr left)) fun own => foreign l (own ▸ left)
    | _ => trivial
  have moves : (fileKernel p c w).isSome := by
    refine fileKernel_isSome fun file type range isLock => ?_
    subst isLock
    simp only [fileKernel] at answers
    split at answers
    · cases answers
    · rename_i granted
      exact Locks.blocked_of_subset (fun q m held => (haunted.locks q m).2 (.inl held))
        (by simpa using granted)
  obtain ⟨⟨answer', w'⟩, here⟩ := Option.isSome_iff_exists.1 moves
  obtain ⟨g'', answers', haunted'⟩ := haunted.call alive avoids here
  rw [answers] at answers'
  cases answers'
  exact ⟨w', here, haunted'⟩

/-- What a process does with the debris there, it does without it. -/
theorem Haunted.exec (haunted : Haunted dead debris w g) (alive : p ∉ dead) {α : Type}
    {x : Prog (FileSig φ) ε α}
    {outcome : Outcome ε α} {g' : World ι φ} (runs : Exec (fileKernel p) x g outcome g') :
    ∃ w', Exec (fileKernel p) x w outcome w' ∧ Haunted dead debris w' g' := by
  induction runs generalizing w with
  | ret value g => exact ⟨w, .ret _ _, haunted⟩
  | abort error g => exact ⟨w, .abort _ _, haunted⟩
  | call answers rest inductionHypothesis =>
    obtain ⟨w₁, here, haunted'⟩ := haunted.call_back alive answers
    obtain ⟨w', runs, haunted''⟩ := inductionHypothesis haunted'
    exact ⟨w', .call here runs, haunted''⟩
  | loop rest inductionHypothesis =>
    obtain ⟨w', runs, haunted'⟩ := inductionHypothesis haunted
    exact ⟨w', .loop runs, haunted'⟩

end

end Apue.Base
