import Apue.Base.Upheld
import Mathlib.Data.Fintype.Basic

/-! # A process and its signals

The process makes one system call after the other, and between two of them anything may happen to
its signals: others send some, the clock of `alarm` goes on, and pending ones that are not blocked
are delivered.  A call that unblocks signals or sends one to the process itself does not return
before one of those that can be delivered then has been.

A handler either returns, and has not changed the actions, the mask or the alarm, or never comes
back to the code it has interrupted.  Job control is left out, and so are real-time queues: a
pending signal is pending once.  A block of `SIGKILL` has no effect.  What `fork`, `execl` and
`waitpid` answer comes with the state.
-/

namespace Apue.Base

abbrev Sig := Fin 65

namespace Sig

def int : Sig := 2

def quit : Sig := 3

def abrt : Sig := 6

def kill : Sig := 9

def alrm : Sig := 14

def chld : Sig := 17

/-- The default action terminates the process; it is to ignore the signal for `SIGCHLD`, `SIGCONT`,
`SIGURG` and `SIGWINCH`. -/
def terminates (sig : Sig) : Bool := sig ∉ [17, 18, 23, 28]

/-- There is no action to choose for `SIGKILL` and `SIGSTOP`. -/
def fixed (sig : Sig) : Bool := sig ∈ [0, 9, 19]

/-- `SIGSTOP`, `SIGTSTP`, `SIGTTIN` and `SIGTTOU`. -/
def jobControl (sig : Sig) : Bool := sig ∈ [19, 20, 21, 22]

end Sig

/-- `sigset_t` -/
abbrev Mask := Sig → Bool

namespace Mask

/-- `sigemptyset` -/
def empty : Mask := fun _ => false

/-- `sigfillset` -/
def full : Mask := fun _ => true

/-- `sigaddset` -/
def add (mask : Mask) (sig : Sig) : Mask := Function.update mask sig true

/-- `sigdelset` -/
def del (mask : Mask) (sig : Sig) : Mask := Function.update mask sig false

end Mask

inductive Disposition (H : Type) where
  | default
  | ignore
  | handler (h : H)
  deriving DecidableEq, Repr

def Disposition.isIgnore {H : Type} : Disposition H → Bool
  | .ignore => true
  | _ => false

/-- `struct sigaction` -/
structure Sigaction (H : Type) where
  handler : Disposition H
  mask : Mask
  flags : Nat

/-- `SA_RESTART` and `SA_INTERRUPT` -/
def saRestart : Nat := 0x10000000

def saInterrupt : Nat := 0x20000000

/-- The first argument of `sigprocmask`. -/
inductive How where
  | block
  | unblock
  | setmask
  deriving DecidableEq, Repr

def How.apply (how : How) (blocked set : Mask) : Mask :=
  match how with
  | .block => fun sig => blocked sig || set sig
  | .unblock => fun sig => blocked sig && !set sig
  | .setmask => set

/-- How the process has ended, or what it runs instead. -/
inductive Ending (H : Type) where
  | killed (sig : Sig)
  /-- A handler that does not return. -/
  | left (h : H)
  | exited (code : Int)
  | executing (command : List UInt8)
  deriving DecidableEq

inductive Forked where
  | failed
  | child
  | parent (pid : Nat)
  deriving DecidableEq, Repr

/-- What `waitpid` answers. -/
inductive Waited where
  | interrupted
  | failed
  | status (status : Int)
  deriving DecidableEq, Repr

structure SignalWorld (H : Type) where
  action : Sig → Sigaction H
  blocked : Mask
  pending : Mask
  /-- The seconds until `SIGALRM`, or 0. -/
  alarm : Nat
  /-- The process is in `sigsuspend` or `pause`, and this is its mask afterwards. -/
  waiting : Option Mask
  /-- A handler has returned since then. -/
  caught : Bool
  /-- The signals whose handlers have returned elsewhere, since the last call of `alarm`. -/
  early : Mask
  /-- The last call has not returned: a signal is delivered first. -/
  due : Bool
  ended : Option (Ending H)
  forks : List Forked
  execFails : Bool
  waits : List Waited

/-- The calls of the process, and what happens around it.  `suspend` and `resume` are the two ends
of one call. -/
inductive SignalCall (H : Type) where
  | sigaction (sig : Sig) (new : Option (Sigaction H))
  | sigprocmask (how : How) (set : Mask)
  | alarm (seconds : Nat)
  | suspend (mask : Option Mask)
  | resume
  | kill (sig : Sig)
  | fflush
  | exit (code : Int)
  | fork
  | execl (command : List UInt8)
  | waitpid (pid : Nat)
  | generate (sig : Sig)
  | tick
  | deliver (sig : Sig)

def SignalCall.Answer {H : Type} : SignalCall H → Type
  | .sigaction .. => Option (Sigaction H)
  | .sigprocmask .. => Option Mask
  | .alarm _ => Nat
  | .fork => Forked
  | .waitpid _ => Waited
  | _ => Unit

abbrev SignalSig (H : Type) : Signature := ⟨SignalCall H, SignalCall.Answer⟩

/-- Whether a handler returns. -/
structure Handlers (H : Type) where
  returns : H → Bool

inductive Who where
  | process
  | surroundings
  deriving DecidableEq

variable {H : Type}

namespace SignalWorld

section

variable (w : SignalWorld H) (sig : Sig)

def disposition : Disposition H := if sig = Sig.kill then .default else (w.action sig).handler

def ignored : Bool :=
  match w.disposition sig with
  | .default => !sig.terminates
  | .ignore => true
  | .handler _ => false

def deliverable : Bool := w.pending sig && (!w.blocked sig || sig = Sig.kill)

/-- The process cannot go on. -/
def held : Bool := w.ended.isSome || w.due

/-- A call that does not return before one of the signals that can be delivered has been. -/
def returning : SignalWorld H := { w with due := decide (∃ sig, w.deliverable sig = true) }

/-- A signal that is ignored and not blocked is gone at once. -/
def generate : SignalWorld H :=
  if w.ignored sig &&
    !w.blocked sig then w else { w with pending := Function.update w.pending sig true }

def tick : SignalWorld H :=
  match w.alarm with
  | 0 => w
  | 1 => { w with alarm := 0 }.generate Sig.alrm
  | n + 2 => { w with alarm := n + 1 }

/-- The signal is no longer pending, and a call that waited for this may return. -/
def accept : SignalWorld H :=
  { w with pending := Function.update w.pending sig false, due := false }

def deliver (handlers : Handlers H) : SignalWorld H :=
  match w.disposition sig with
  | .default =>
    if sig.terminates then { w.accept sig with ended := some (.killed sig) } else w.accept sig
  | .ignore => w.accept sig
  | .handler h =>
    if handlers.returns h then
      if w.waiting.isSome then { w.accept sig with caught := true }
      else { w.accept sig with early := Function.update w.early sig true }
    else { w.accept sig with ended := some (.left h) }

end

end SignalWorld

/-- What a call of the process does; one that blocks has no answer. -/
def serve : Kernel (SignalSig H) (SignalWorld H)
  | .sigaction sig new, w =>
    if sig.fixed then some (none, w)
    else
      match new with
      | none => some (some (w.action sig), w)
      | some new =>
        some (some (w.action sig), { w with
          action := Function.update w.action sig new
          pending := if new.handler.isIgnore then Function.update w.pending sig
            false else w.pending })
  | .sigprocmask how set, w =>
    some (some w.blocked, { w with blocked := how.apply w.blocked set }.returning)
  | .alarm seconds, w => some (w.alarm, { w with alarm := seconds, early := Mask.empty })
  | .suspend mask, w =>
    some ((), { w with blocked := mask.getD w.blocked, waiting := some w.blocked, caught := false })
  | .resume, w =>
    match w.waiting with
    | none => some ((), w)
    | some mask =>
      if w.caught then some ((),
        { w with blocked := mask, waiting := none, caught := false }) else none
  | .kill sig, w => some ((), (w.generate sig).returning)
  | .fflush, w => some ((), w)
  | .exit code, w => some ((), { w with ended := some (.exited code) })
  | .fork, w =>
    match w.forks with
    | [] => none
    | forked :: forks =>
      if forked = .child then some (forked,
        { w with forks := forks, pending := Mask.empty, alarm := 0 })
      else some (forked, { w with forks := forks })
  | .execl command, w =>
    if w.execFails then some ((), w) else some ((), { w with ended := some (.executing command) })
  | .waitpid _, w =>
    match w.waits with
    | [] => none
    | waited :: waits => some (waited, { w with waits := waits })
  | .generate _, _ | .tick, _ | .deliver _, _ => none

/-- What happens around the process, as long as it is there. -/
def surround (handlers : Handlers H) : Kernel (SignalSig H) (SignalWorld H)
  | .generate sig, w =>
    if w.ended = none ∧ sig.jobControl = false then some ((), w.generate sig) else none
  | .tick, w => if w.ended = none then some ((), w.tick) else none
  | .deliver sig, w =>
    if w.ended = none ∧ w.deliverable sig = true then some ((), w.deliver sig handlers) else none
  | _, _ => none

def signalKernel (handlers : Handlers H) : Who → Kernel (SignalSig H) (SignalWorld H)
  | .process, c, w => if w.held then none else serve c w
  | .surroundings, c, w => surround handlers c w

/-- The functions of a library as operations of the process, and what happens around it. -/
inductive Act (Op : Type) where
  | call (op : Op)
  | generate (sig : Sig)
  | tick
  | deliver (sig : Sig)

variable {Op Res : Type}

/-- The process exits with a status. -/
abbrev SignalM (H : Type) := Code (SignalSig H) Int Unit

namespace SignalM

def sys (c : SignalCall H) : SignalM H c.Answer := Code.call (S := SignalSig H) c

/-- The process waits with this mask until a handler has returned. -/
def sigsuspend (mask : Mask) : SignalM H Unit := do
  let _ : Unit ← sys (.suspend (some mask))
  let _ : Unit ← sys .resume
  return ()

def pause : SignalM H Unit := do
  let _ : Unit ← sys (.suspend none)
  let _ : Unit ← sys .resume
  return ()

def exit {α : Type} (code : Int) : SignalM H α := do
  let _ : Unit ← sys (.exit code)
  Code.abort code

end SignalM

open SignalM

/-- A process whose operations are the given functions. -/
def signalled (handlers : Handlers H) (code : Op → SignalM H Res) :
    System Who (SignalSig H) Int (SignalWorld H) (Act Op) Unit (Option Res) where
  kernel := signalKernel handlers
  exit _ w := w
  code
    | .call op => show SignalM H (Option Res) from do
      let res ← code op
      return some res
    | .generate sig => show SignalM H (Option Res) from do
      let _ : Unit ← sys (.generate sig)
      return none
    | .tick => show SignalM H (Option Res) from do
      let _ : Unit ← sys .tick
      return none
    | .deliver sig => show SignalM H (Option Res) from do
      let _ : Unit ← sys (.deliver sig)
      return none
  may
    | .process, _, .call _ => True
    | .surroundings, _, .generate _ | .surroundings, _, .tick | .surroundings, _, .deliver _ => True
    | _, _, _ => False

instance (handlers : Handlers H) (code : Op → SignalM H Res) : ∀ who handle act,
    Decidable ((signalled handlers code).may who handle act)
  | .process, _, .call _ => isTrue trivial
  | .surroundings, _, .generate _ => isTrue trivial
  | .surroundings, _, .tick => isTrue trivial
  | .surroundings, _, .deliver _ => isTrue trivial
  | .process, _, .generate _ => isFalse id
  | .process, _, .tick => isFalse id
  | .process, _, .deliver _ => isFalse id
  | .surroundings, _, .call _ => isFalse id

/-! ## What happens around the process -/

section

variable {handlers : Handlers H} {w w' w'' : SignalWorld H} {sig : Sig}

/-- A handler that returns is called for the signal. -/
def Handled (handlers : Handlers H) (w : SignalWorld H) (sig : Sig) : Prop :=
  ∃ h, w.disposition sig = .handler h ∧ handlers.returns h = true

/-- The process has been woken by `SIGALRM` or will be. -/
def SignalWorld.Armed (w : SignalWorld H) : Prop :=
  0 < w.alarm ∨ w.pending Sig.alrm = true ∨ w.caught = true

/-- It has been, or will be, or the handler has run too early for that. -/
def SignalWorld.Noticed (w : SignalWorld H) : Prop := w.Armed ∨ w.early Sig.alrm = true

/-- The process has ended, or its call does not return and the signal terminates it. -/
def SignalWorld.Doomed (w : SignalWorld H) (sig : Sig) : Prop :=
  w.ended.isSome = true ∨ w.due = true ∧ w.deliverable sig = true ∧ w.disposition sig = .default ∧
    sig.terminates = true ∧
    ∀ other, other ≠ sig → other ≠ Sig.kill → w.blocked other = true

/-- What the process may rely on between two of its calls. -/
structure Around (handlers : Handlers H) (w w' : SignalWorld H) : Prop where
  action : w'.action = w.action
  blocked : w'.blocked = w.blocked
  waiting : w'.waiting = w.waiting
  forks : w'.forks = w.forks
  execFails : w'.execFails = w.execFails
  waits : w'.waits = w.waits
  alarm : w'.alarm ≤ w.alarm
  ended : w.ended.isSome = true → w'.ended = w.ended
  caught : w.waiting = none → w'.caught = w.caught
  /-- Outside its waits a blocked signal stays pending, and inside them a handler that returns ends
  the wait. -/
  armed : Handled handlers w Sig.alrm → w.blocked Sig.alrm = true ∨ w.waiting.isSome = true →
    w.Armed → w'.Armed
  noticed : Handled handlers w Sig.alrm → w.Noticed → w'.Noticed
  doomed : ∀ sig, w.Doomed sig → w'.Doomed sig

theorem disposition_congr (action : w'.action = w.action) (sig : Sig) :
    w'.disposition sig = w.disposition sig := by
  simp only [SignalWorld.disposition, action]

theorem Around.handled (around : Around handlers w w') (handled : Handled handlers w sig) :
    Handled handlers w' sig := by
  obtain ⟨h, isHandler, returns⟩ := handled
  exact ⟨h, (disposition_congr around.action sig).trans isHandler, returns⟩

theorem Around.refl (handlers : Handlers H) (w : SignalWorld H) : Around handlers w w :=
  ⟨rfl, rfl, rfl, rfl, rfl, rfl, Nat.le_refl _, fun _ => rfl, fun _ => rfl, fun _ _ armed => armed,
    fun _ noticed => noticed,
    fun _ doomed => doomed⟩

theorem Around.trans (first : Around handlers w w') (second : Around handlers w' w'') :
    Around handlers w w'' where
  action := second.action.trans first.action
  blocked := second.blocked.trans first.blocked
  waiting := second.waiting.trans first.waiting
  forks := second.forks.trans first.forks
  execFails := second.execFails.trans first.execFails
  waits := second.waits.trans first.waits
  alarm := Nat.le_trans second.alarm first.alarm
  ended has := by
    have same := first.ended has
    rw [second.ended (by rwa [same]), same]
  caught awake := (second.caught (first.waiting.trans awake)).trans (first.caught awake)
  armed handled place armed :=
    second.armed (first.handled handled)
      (by rwa [first.blocked, first.waiting]) (first.armed handled place armed)
  noticed handled noticed := second.noticed (first.handled handled) (first.noticed handled noticed)
  doomed sig doomed := second.doomed sig (first.doomed sig doomed)

/-- A signal that is sent. -/
theorem around_generate (handlers : Handlers H) (w : SignalWorld H) (sig : Sig) :
    Around handlers w (w.generate sig) := by
  unfold SignalWorld.generate
  split
  · exact .refl handlers w
  · have pending (other : Sig) (was : w.pending other = true) :
        Function.update w.pending sig true other = true := by
      rw [Function.update_apply]
      split
      · rfl
      · exact was
    refine ⟨rfl, rfl, rfl, rfl, rfl, rfl, Nat.le_refl _, fun _ => rfl, fun _ => rfl,
      fun _ _ armed => ?_, fun _ noticed => ?_,
      fun other doomed => ?_⟩
    · exact armed.imp_right (Or.imp_left (pending _))
    · exact noticed.imp_left (Or.imp_right (Or.imp_left (pending _)))
    · refine doomed.imp_right fun ⟨due, can, rest⟩ => ⟨due, ?_, rest⟩
      simp only [SignalWorld.deliverable, Bool.and_eq_true] at can ⊢
      exact ⟨pending other can.1, can.2⟩

theorem generate_pending (handled : Handled handlers w sig) :
    (w.generate sig).pending sig = true := by
  obtain ⟨h, isHandler, -⟩ := handled
  have heeded : w.ignored sig = false := by simp [SignalWorld.ignored, isHandler]
  simp [SignalWorld.generate, heeded]

theorem around_tick (handlers : Handlers H) (w : SignalWorld H) : Around handlers w w.tick := by
  unfold SignalWorld.tick
  split
  · exact .refl handlers w
  · rename_i last
    let rung : SignalWorld H := { w with alarm := 0 }
    have around := around_generate handlers rung Sig.alrm
    refine ⟨around.action, around.blocked, around.waiting, around.forks, around.execFails,
      around.waits, ?_, around.ended,
      around.caught, fun handled _ _ => .inr (.inl (generate_pending handled)),
        fun handled _ => .inl (.inr (.inl (generate_pending handled))),
      around.doomed⟩
    exact Nat.le_trans around.alarm (Nat.zero_le _)
  · rename_i n more
    refine ⟨rfl, rfl, rfl, rfl, rfl, rfl, ?_, fun _ => rfl, fun _ => rfl,
      fun _ _ _ => .inl (Nat.succ_pos n),
      fun _ _ => .inl (.inl (Nat.succ_pos n)), fun _ doomed => doomed⟩
    rw [more]
    exact Nat.le_succ _

/-- What is delivered leaves everything else as it was; the process ends, or only its signal is
gone. -/
theorem deliver_cases (handlers : Handlers H) (w : SignalWorld H) (sig : Sig) :
    ∃ caught early ended, w.deliver sig handlers = { w.accept sig with caught, early, ended } ∧
      (w.caught = true → caught = true) ∧ (w.early Sig.alrm = true → early Sig.alrm = true) ∧
      (w.waiting = none → caught = w.caught) := by
  unfold SignalWorld.deliver
  split
  · split
    · exact ⟨w.caught, w.early, _, rfl, id, id, fun _ => rfl⟩
    · exact ⟨w.caught, w.early, w.ended, rfl, id, id, fun _ => rfl⟩
  · exact ⟨w.caught, w.early, w.ended, rfl, id, id, fun _ => rfl⟩
  · split
    · split
      · rename_i waits
        exact ⟨true, w.early, w.ended, rfl, fun _ => rfl, id, fun awake => by simp [awake] at waits⟩
      · refine ⟨w.caught, _, w.ended, rfl, id, fun was => ?_, fun _ => rfl⟩
        rw [Function.update_apply]
        split
        · rfl
        · exact was
    · exact ⟨w.caught, w.early, _, rfl, id, id, fun _ => rfl⟩

/-- In a wait a handler that returns ends it. -/
theorem deliver_caught (handled : Handled handlers w sig) (waiting : w.waiting.isSome = true) :
    (w.deliver sig handlers).caught = true := by
  obtain ⟨h, isHandler, returns⟩ := handled
  simp [SignalWorld.deliver, isHandler, returns, waiting]

theorem deliver_noticed (handled : Handled handlers w Sig.alrm) :
    (w.deliver Sig.alrm handlers).Noticed := by
  obtain ⟨h, isHandler, returns⟩ := handled
  cases waiting : w.waiting.isSome with
  | true => exact .inl (.inr (.inr (deliver_caught ⟨h, isHandler, returns⟩ waiting)))
  | false => exact .inr (by simp [SignalWorld.deliver, isHandler, returns, waiting])

theorem deliver_kills (default : w.disposition sig = .default)
    (terminates : sig.terminates = true) :
    (w.deliver sig handlers).ended.isSome = true := by
  simp [SignalWorld.deliver, default, terminates]

theorem around_deliver (goes : w.ended = none) (can : w.deliverable sig = true) :
    Around handlers w (w.deliver sig handlers) := by
  obtain ⟨pending, open_⟩ : w.pending sig = true ∧ (w.blocked sig = false ∨ sig = Sig.kill) := by
    simpa [SignalWorld.deliverable] using can
  obtain ⟨caught, early, ended, same, stays, remains, idle⟩ := deliver_cases handlers w sig
  refine ⟨by rw [same]; rfl, by rw [same]; rfl, by rw [same]; rfl, by rw [same]; rfl, by rw [same]; rfl, by rw [same]; rfl,
    by rw [same]; exact Nat.le_refl _, fun has => by simp [goes] at has,
    fun awake => by rw [same]; exact idle awake, fun handled place armed => ?_,
    fun handled noticed => ?_, fun other doomed => ?_⟩
  · by_cases itself : sig = Sig.alrm
    · subst itself
      have waits : w.waiting.isSome = true := by
        refine place.resolve_left fun blocked => ?_
        obtain unblocked | isKill := open_
        · simp [unblocked] at blocked
        · exact absurd isKill (by decide)
      exact .inr (.inr (deliver_caught handled waits))
    · rw [same]
      refine armed.imp_right (Or.imp (fun was => ?_) stays)
      exact (Function.update_of_ne (Ne.symm itself) ..).trans was
  · by_cases itself : sig = Sig.alrm
    · subst itself
      exact deliver_noticed handled
    · rw [same]
      refine noticed.imp (Or.imp_right (Or.imp (fun was => ?_) stays)) remains
      exact (Function.update_of_ne (Ne.symm itself) ..).trans was
  · left
    obtain has | ⟨-, -, default, terminates, others⟩ := doomed
    · simp [goes] at has
    · by_cases isKill : sig = Sig.kill
      · subst isKill
        exact deliver_kills (by simp [SignalWorld.disposition]) (by decide)
      · by_cases itself : sig = other
        · subst itself
          exact deliver_kills default terminates
        · obtain unblocked | isKill' := open_
          · simp [others sig itself isKill] at unblocked
          · exact absurd isKill' isKill

theorem surround_around {c : SignalCall H} {answer : c.Answer}
    (answers : surround handlers c w = some (answer, w')) :
    Around handlers w w' := by
  cases c with
  | generate sig =>
    obtain ⟨-, rest⟩ := Option.ite_none_right_eq_some.1 answers
    cases rest
    exact around_generate handlers w sig
  | tick =>
    obtain ⟨-, rest⟩ := Option.ite_none_right_eq_some.1 answers
    cases rest
    exact around_tick handlers w
  | deliver sig =>
    obtain ⟨⟨goes, can⟩, rest⟩ := Option.ite_none_right_eq_some.1 answers
    cases rest
    exact around_deliver goes can
  | _ => cases answers

/-! ## The rules -/

/-- An invariant of the state besides what holds of every process. -/
def signalDiscipline (handlers : Handlers H) (inv : SignalWorld H → Prop) :
    Discipline Who (SignalSig H) (SignalWorld H) (SignalWorld H) where
  kernel := signalKernel handlers
  world := id
  inv := inv
  rely
    | .process => Around handlers
    | .surroundings => fun _ _ => True
  guar
    | .process => fun _ _ => True
    | .surroundings => Around handlers
  env _ _ _ := True
  rely_refl p w := by
    cases p with
    | process => exact .refl handlers w
    | surroundings => trivial
  rely_trans {p _ _ _} first second := by
    cases p with
    | process => exact Around.trans first second
    | surroundings => trivial
  guar_rely {p q _ _} _ guarantees other := by
    cases p with
    | process =>
      cases q with
      | process => exact absurd rfl other
      | surroundings => exact guarantees
    | surroundings => trivial

variable {inv : SignalWorld H → Prop} {E : Int → SignalWorld H → Prop} {l : Unit}

theorem serve_of_answers {c : SignalCall H} {answer : c.Answer}
    (answers : signalKernel handlers .process c w = some (answer, w')) :
    w.held = false ∧ serve c w = some (answer, w') := by
  simp only [signalKernel] at answers
  split at answers
  · cases answers
  · rename_i goes
    exact ⟨by simpa using goes, answers⟩

theorem triple_signal {c : SignalCall H} {post : c.Answer → SignalWorld H → Prop}
    (step : ∀ τ, Around handlers w τ → inv τ → τ.held = false →
    ∀ answer w', serve c τ = some (answer, w') →
      inv w' ∧ post answer w') :
    Triple (signalDiscipline handlers inv) .process E w (sys c) l fun answer _ w' =>
      post answer w' := by
  refine Triple.call (S := SignalSig H) fun τ around holds _ answer w' answers => ?_
  change signalKernel handlers .process c τ = some (answer, w') at answers
  obtain ⟨goes, serves⟩ := serve_of_answers answers
  obtain ⟨kept, after⟩ := step τ around holds goes answer w' serves
  exact ⟨w', w', rfl, trivial, kept, .refl handlers w', after⟩

theorem serve_sigaction {new : Sigaction H} (free : sig.fixed = false) :
    serve (.sigaction sig (some new)) w =
    some (some (w.action sig), { w with
      action := Function.update w.action sig new
      pending := if new.handler.isIgnore then Function.update w.pending sig
        false else w.pending }) :=
  if_neg (by simp [free])

theorem goes_of_held (goes : w.held = false) : w.ended = none := by
  have both : w.ended = none ∧ w.due = false := by simpa [SignalWorld.held] using goes
  exact both.1

/-- The process waits for nothing, with these actions and this mask. -/
structure Awake (action : Sig → Sigaction H) (blocked : Mask) (w : SignalWorld H) : Prop where
  action : w.action = action
  blocked : w.blocked = blocked
  waiting : w.waiting = none
  caught : w.caught = false

theorem Awake.around {action : Sig → Sigaction H} {blocked : Mask} (awake : Awake action blocked w)
    (around : Around handlers w w') : Awake action blocked w' :=
  ⟨around.action.trans awake.action, around.blocked.trans awake.blocked,
    around.waiting.trans awake.waiting,
    (around.caught awake.waiting).trans awake.caught⟩

/-- What the calls about actions and masks leave alone. -/
structure Spared (w w' : SignalWorld H) : Prop where
  alarm : w'.alarm ≤ w.alarm
  forks : w'.forks = w.forks
  execFails : w'.execFails = w.execFails
  waits : w'.waits = w.waits

section

variable {action : Sig → Sigaction H} {blocked : Mask}
    (calm : ∀ w : SignalWorld H, w.waiting = none → w.ended = none → inv w)

include calm

theorem triple_sigaction (awake : Awake action blocked w) (free : sig.fixed = false)
    (new : Sigaction H) :
    Triple (signalDiscipline handlers inv) .process E w (sys (.sigaction sig (some new))) l
      fun old _ w' => old = some (action sig) ∧ Awake (Function.update action sig new) blocked w' ∧
        Spared w w' := by
  refine triple_signal fun τ around _ goes old w' serves => ?_
  rw [serve_sigaction free] at serves
  cases serves
  have here := awake.around around
  exact ⟨calm _ here.waiting (goes_of_held goes), by rw [here.action],
    ⟨by rw [← here.action], here.blocked, here.waiting, here.caught⟩,
    ⟨around.alarm, around.forks, around.execFails, around.waits⟩⟩

theorem triple_sigprocmask (awake : Awake action blocked w) (how : How) (set : Mask) :
    Triple (signalDiscipline handlers inv) .process E w (sys (.sigprocmask how set)) l
      fun old _ w' => old = some blocked ∧ Awake action (how.apply blocked set) w' ∧
        Spared w w' := by
  refine triple_signal fun τ around _ goes old w' serves => ?_
  have still : τ.ended = none := goes_of_held goes
  cases serves
  have here := awake.around around
  exact ⟨calm _ here.waiting still, by rw [here.blocked],
    ⟨here.action, by rw [← here.blocked]; rfl, here.waiting, here.caught⟩,
    ⟨around.alarm, around.forks, around.execFails, around.waits⟩⟩

theorem triple_alarm (awake : Awake action blocked w) (seconds : Nat) :
    Triple (signalDiscipline handlers inv) .process E w (sys (.alarm seconds)) l
      fun (left : Nat) _ w' => left ≤ w.alarm ∧ Awake action blocked w' ∧ w'.alarm = seconds := by
  refine triple_signal fun τ around _ goes left w' serves => ?_
  cases serves
  have here := awake.around around
  exact ⟨calm _ here.waiting (goes_of_held goes), around.alarm,
    ⟨here.action, here.blocked, here.waiting, here.caught⟩, rfl⟩

end

/-- What a proof about the functions of a library consists of: the triple of each of them, between
states that nothing around the process disturbs. -/
structure Functions (handlers : Handlers H) (inv : SignalWorld H → Prop) (code : Op → SignalM H Res)
    (quiet : SignalWorld H → Prop)
    (goal : Op → Res → SignalWorld H → Prop) : Prop where
  stable : ∀ {c : SignalCall H} {answer : c.Answer} {w w' : SignalWorld H}, surround handlers c w =
    some (answer, w') → inv w → inv w'
  later : ∀ {w w'}, Around handlers w w' → quiet w → quiet w'
  reached : ∀ {op res w w'}, Around handlers w w' → goal op res w → goal op res w'
  leave : ∀ {op res w}, goal op res w → quiet w
  triple : ∀ op w, quiet w → inv w →
    Triple (signalDiscipline handlers inv) .process (fun _ _ => True) w (code op) () fun res _ w' =>
      goal op res w'

variable {code : Op → SignalM H Res} {quiet : SignalWorld H → Prop}
    {goal : Op → Res → SignalWorld H → Prop}

def quietOf (quiet : SignalWorld H → Prop) : Who → Unit → SignalWorld H → Prop
  | .process, _, w => quiet w
  | .surroundings, _, _ => True

def goalOf (goal : Op → Res → SignalWorld H → Prop) :
    Who → Act Op → Option Res × Unit → SignalWorld H → Prop
  | .process, .call op, (some res, _), w => goal op res w
  | .process, _, _, _ => False
  | .surroundings, _, _, _ => True

theorem Functions.upholds (functions : Functions handlers inv code quiet goal) :
    Upholds (signalled handlers code) (signalDiscipline handlers inv) (quietOf quiet) (goalOf goal)
      fun _ _ => True where
  kernel := rfl
  given _ _ _ := trivial
  enter {p l act w} calm holds may := by
    cases p with
    | process =>
      cases act with
      | call op =>
        have whole : Triple (signalDiscipline handlers inv) .process (fun _ _ => True) w
            (code op >>= fun res => pure (some res)) ()
            fun res _ w' => goalOf goal .process (.call op) (res, ()) w' :=
          (functions.triple op w calm holds).bind fun _ _ _ reached => .pure reached
        refine (whole w (.refl handlers w) holds).weaken ?_ fun _ _ _ => trivial
        rintro ⟨res, _⟩ w' ⟨-, w₁, reached, around⟩
        cases res with
        | none => exact reached
        | some res => exact functions.reached around reached
      | generate sig | tick | deliver sig => exact may.elim
    | surroundings =>
      have single (c : SignalCall H) :
          Safe (signalDiscipline handlers inv) .surroundings (goalOf goal .surroundings act)
          (fun (_ : Int) _ => True) (.call c fun _ => .ret (none, ())) w := by
        refine .call (fun _ _ => True) (fun τ _ fits _ answer w' answers => ?_) fun _ _ _ =>
          .ret fun _ _ _ => trivial
        exact ⟨w', rfl, surround_around answers, functions.stable answers fits, trivial⟩
      cases act with
      | call op => exact may.elim
      | generate sig => exact single (.generate sig)
      | tick => exact single .tick
      | deliver sig => exact single (.deliver sig)
  leave {p act res l w} reached holds := by
    cases p with
    | process =>
      cases act with
      | call op =>
        cases res with
        | none => exact reached.elim
        | some res => exact functions.leave reached
      | generate sig | tick | deliver sig => exact reached.elim
    | surroundings => trivial
  later {p l w w'} around calm := by
    cases p with
    | process => exact functions.later around calm
    | surroundings => trivial
  past _ _ := trivial
  ends p w holds := ⟨w, rfl, holds, fun q _ => (signalDiscipline handlers inv).rely_refl q w, trivial⟩

/-- A run of the process that starts where it is in none of the functions. -/
abbrev SignalRun (handlers : Handlers H) (code : Op → SignalM H Res) (w : SignalWorld H)
    (history : List (Event Who Int (Act Op) (Option Res)))
    (c : Config Who (SignalSig H) Int (SignalWorld H) (Act Op) Unit (Option Res)) : Prop :=
  Run (signalled handlers code) (fun _ => True) ⟨w, fun _ => .idle ()⟩ history c

theorem Functions.run (functions : Functions handlers inv code quiet goal) (calm : quiet w)
    (holds : inv w)
    {history : List (Event Who Int (Act Op) (Option Res))}
    {c : Config Who (SignalSig H) Int (SignalWorld H) (Act Op) Unit (Option Res)}
    (run : SignalRun handlers code w history c) :
    inv c.world ∧ Holding (signalDiscipline handlers inv) (quietOf quiet) (goalOf goal)
      (fun _ _ => True) c.world .process
      (c.procs .process) := by
  have start : Upheld (signalDiscipline handlers inv) (quietOf quiet) (goalOf goal)
      (fun _ _ => True) w
      (⟨⟨w, fun _ => .idle ()⟩, [], ()⟩ : Scene Who (SignalSig H) Int (SignalWorld H) (Act Op) Unit
        (Option Res) Unit) := by
    refine ⟨rfl, holds, fun p _ => ?_, by simp⟩
    cases p with
    | process => exact calm
    | surroundings => trivial
  obtain ⟨w', upheld⟩ := run.upheld functions.upholds start
  obtain rfl : w' = c.world := upheld.world
  exact ⟨upheld.inv, upheld.alive .process (by simp)⟩

/-- The function that is about to return, and its result. -/
def about (c : Config Who (SignalSig H) Int (SignalWorld H) (Act Op) Unit (Option Res)) :
    Option (Op × Res) :=
  match c.procs .process with
  | .busy (.call op) (.ret (some res, ())) => some (op, res)
  | _ => none

theorem of_about {c : Config Who (SignalSig H) Int (SignalWorld H) (Act Op) Unit (Option Res)}
    {op : Op} {res : Res}
    (returns : about c = some (op, res)) :
    c.procs .process = .busy (.call op) (.ret (some res, ())) := by
  unfold about at returns
  split at returns
  · rename_i here
    cases returns
    exact here
  · cases returns

/-- What a function has reached when it is about to return. -/
theorem Functions.about (functions : Functions handlers inv code quiet goal) (calm : quiet w)
    (holds : inv w)
    {history : List (Event Who Int (Act Op) (Option Res))}
    {c : Config Who (SignalSig H) Int (SignalWorld H) (Act Op) Unit (Option Res)}
    (run : SignalRun handlers code w history c)
    {op : Op} {res : Res} (returns : about c = some (op, res)) : goal op res c.world := by
  obtain ⟨holds', holding⟩ := functions.run calm holds run
  rw [of_about returns] at holding
  cases holding with
  | ret reached => exact reached c.world (.refl _ c.world) holds'

/-! ## Schedules -/

/-- A process with the default actions that blocks nothing. -/
def SignalWorld.plain : SignalWorld H where
  action _ := ⟨.default, Mask.empty, 0⟩
  blocked := Mask.empty
  pending := Mask.empty
  alarm := 0
  waiting := none
  caught := false
  early := Mask.empty
  due := false
  ended := none
  forks := []
  execFails := false
  waits := []

/-- One act of the process or of its surroundings, with this many steps of it. -/
def steps (who : Who) (act : Act Op) (count : Nat) : List (Who × Option (Act Op)) :=
  (who, some act) :: List.replicate count (who, none)

/-- A schedule that comes to a state with a property is a run. -/
theorem signalRun_of_follow (handlers : Handlers H) (code : Op → SignalM H Res) (w : SignalWorld H)
    (schedule : List (Who × Option (Act Op)))
    (test : Config Who (SignalSig H) Int (SignalWorld H) (Act Op) Unit (Option Res) → Bool)
    (follows : ((⟨w, fun _ => .idle ()⟩ : Config Who (SignalSig H) Int (SignalWorld H) (Act Op) Unit
    (Option Res)).follow
      (signalled handlers code) (fun _ => True) schedule).any (test ·.2) = true) :
    ∃ history c, SignalRun handlers code w history c ∧ test c = true := by
  obtain ⟨⟨history, c⟩, reaches, holds⟩ := (Option.any_eq_true _ _).mp follows
  exact ⟨history, c, Config.follow_run reaches trivial, holds⟩

end

end Apue.Base
