import Apue.Base.Signals

/-! # Sleeping until an alarm

`sleep` sets the alarm while `SIGALRM` is blocked, and `sigsuspend` unblocks it in the call that
waits; so the alarm cannot go off between the two.  `sleep1` waits in `pause` with the mask of the
caller, and may begin to wait when the alarm is over.  The caller may have handlers for the other
signals, and these may come at any time.
-/

namespace Apue.Lib.Sleep

open Apue.Base SignalM

/-! ## The code -/

/-- `sig_alrm`, which has nothing to do, and the handlers of the caller. -/
inductive Catcher (U : Type) where
  | sigAlrm
  | user (u : U)
  deriving DecidableEq

variable {U : Type}

def catchers (returns : U → Bool) : Handlers (Catcher U) where
  returns
    | .sigAlrm => true
    | .user u => returns u

/-- `signal` of `lib/signal.c`; no answer is `SIG_ERR`. -/
def signal {H : Type} (signo : Sig) (func : Disposition H) :
    SignalM H (Option (Disposition H)) := do
  let flags := if signo = Sig.alrm then saInterrupt else saRestart
  let oact : Option (Sigaction H) ← sys (.sigaction signo (some ⟨func, Mask.empty, flags⟩))
  return oact.map Sigaction.handler

/-- `oldact₀` and `oldmask₀` are what the local variables hold before the calls fill them in. -/
def sleep (oldact₀ : Sigaction (Catcher U)) (oldmask₀ : Mask) (seconds : Nat) :
    SignalM (Catcher U) Nat := do
  let newact : Sigaction (Catcher U) := ⟨.handler .sigAlrm, Mask.empty, 0⟩
  let oldact : Option (Sigaction (Catcher U)) ← sys (.sigaction Sig.alrm (some newact))
  let oldact := oldact.getD oldact₀
  let oldmask : Option Mask ← sys (.sigprocmask .block (Mask.empty.add Sig.alrm))
  let oldmask := oldmask.getD oldmask₀
  let _ : Nat ← sys (.alarm seconds)
  sigsuspend (oldmask.del Sig.alrm)
  let unslept : Nat ← sys (.alarm 0)
  let _ : Option (Sigaction (Catcher U)) ← sys (.sigaction Sig.alrm (some oldact))
  let _ : Option Mask ← sys (.sigprocmask .setmask oldmask)
  return unslept

def sleep1 (seconds : Nat) : SignalM (Catcher U) Nat := do
  match ← signal Sig.alrm (.handler .sigAlrm) with
  | none => return seconds
  | some _ =>
    let _ : Nat ← sys (.alarm seconds)
    pause
    let unslept : Nat ← sys (.alarm 0)
    return unslept

/-! ## The wait -/

/-- While the process waits, `SIGALRM` will wake it; `timed` says that the alarm is set for a
time. -/
def Awaits (timed : Prop) (w : SignalWorld (Catcher U)) : Prop :=
  w.waiting.isSome = true → (timed → w.Armed) ∧ w.blocked Sig.alrm = false ∧
    (w.action Sig.alrm).handler = .handler .sigAlrm

section

variable {returns : U → Bool} {timed : Prop} {w w' : SignalWorld (Catcher U)}
    {E : Int → SignalWorld (Catcher U) → Prop} {l : Unit}

theorem handled_sigAlrm (action : (w.action Sig.alrm).handler = .handler .sigAlrm) :
    Handled (catchers returns) w Sig.alrm :=
  ⟨.sigAlrm, (if_neg (by decide)).trans action, rfl⟩

theorem Awaits.around (awaits : Awaits timed w) (around : Around (catchers returns) w w') :
    Awaits timed w' := by
  intro waits
  rw [around.waiting] at waits
  obtain ⟨armed, unblocked, action⟩ := awaits waits
  rw [around.blocked, around.action]
  exact ⟨fun isTimed => around.armed (handled_sigAlrm action) (.inr waits) (armed isTimed),
    unblocked, action⟩

theorem awaits_of_not_waiting (awake : w.waiting = none) : Awaits timed w :=
  fun waits => by simp [awake] at waits

variable {action : Sig → Sigaction (Catcher U)} {blocked : Mask}

/-- A wait that unblocks `SIGALRM`, when it has been blocked since the alarm was set. -/
theorem triple_sigsuspend (awake : Awake action blocked w) (armed : timed → w.Armed)
    (masked : blocked Sig.alrm = true)
    (handler : (action Sig.alrm).handler = .handler .sigAlrm) {mask : Mask}
    (unmasks : mask Sig.alrm = false) :
    Triple (signalDiscipline (catchers returns) (Awaits timed)) .process E w (sigsuspend mask) l
      fun _ _ w' => Awake action blocked w' ∧ w'.alarm ≤ w.alarm := by
  have suspends : Triple (signalDiscipline (catchers returns) (Awaits timed)) .process E w
      (sys (.suspend (some mask))) l
      fun _ _ w' => w'.action = action ∧ w'.waiting = some blocked ∧ w'.alarm ≤ w.alarm := by
    refine triple_signal fun τ around _ _ _ w' serves => ?_
    cases serves
    have here := awake.around around
    have same : τ.action Sig.alrm = action Sig.alrm := by rw [here.action]
    have still (isTimed : timed) : τ.Armed := by
      refine around.armed (handled_sigAlrm (by rw [awake.action]; exact handler)) (.inl ?_)
        (armed isTimed)
      rw [awake.blocked]
      exact masked
    refine ⟨fun _ => ⟨fun isTimed => ?_, unmasks, ?_⟩,
      here.action, by rw [← here.blocked], around.alarm⟩
    · exact (still isTimed).imp_right fun pending =>
        .inl (pending.resolve_right (by simp [here.caught]))
    · change (τ.action Sig.alrm).handler = _
      rw [same, handler]
  refine suspends.bind ?_
  rintro - - w₁ ⟨action₁, waiting₁, alarm₁⟩
  have resumes : Triple (signalDiscipline (catchers returns) (Awaits timed)) .process E w₁
      (sys .resume) l
      fun _ _ w' => Awake action blocked w' ∧ w'.alarm ≤ w₁.alarm := by
    refine triple_signal fun τ around _ _ _ w' serves => ?_
    simp only [serve, around.waiting, waiting₁] at serves
    split at serves
    · cases serves
      exact ⟨awaits_of_not_waiting rfl, ⟨around.action.trans action₁, rfl, rfl, rfl⟩, around.alarm⟩
    · cases serves
  refine resumes.bind ?_
  rintro - - w₂ ⟨awake₂, alarm₂⟩
  exact .pure ⟨awake₂, Nat.le_trans alarm₂ alarm₁⟩

theorem triple_sleep (awake : Awake action blocked w) {oldact₀ : Sigaction (Catcher U)}
    {oldmask₀ : Mask} {seconds : Nat}
    (positive : timed → 0 < seconds) :
    Triple (signalDiscipline (catchers returns) (Awaits timed)) .process E w
      (sleep oldact₀ oldmask₀ seconds) l
      fun unslept _ w' => Awake action blocked w' ∧ w'.alarm = 0 ∧ unslept ≤ seconds := by
  have calm (w : SignalWorld (Catcher U)) (awake : w.waiting = none) (_ : w.ended = none) :
      Awaits timed w :=
    awaits_of_not_waiting awake
  refine (triple_sigaction calm awake (by decide) _).bind ?_
  rintro - - w₁ ⟨rfl, awake₁, -⟩
  refine (triple_sigprocmask calm awake₁ .block _).bind ?_
  rintro - - w₂ ⟨rfl, awake₂, -⟩
  refine (triple_alarm calm awake₂ seconds).bind ?_
  rintro - - w₃ ⟨-, awake₃, alarm₃⟩
  refine (triple_sigsuspend awake₃ (fun isTimed => .inl (by rw [alarm₃]; exact positive isTimed)) ?_
    ?_ ?_).bind ?_
  · simp [How.apply, Mask.add]
  · rw [Function.update_self]
  · exact Function.update_self ..
  rintro - - w₄ ⟨awake₄, alarm₄⟩
  refine (triple_alarm calm awake₄ 0).bind ?_
  rintro unslept - w₅ ⟨few, awake₅, alarm₅⟩
  refine (triple_sigaction calm awake₅ (by decide) _).bind ?_
  rintro - - w₆ ⟨-, awake₆, kept₆⟩
  refine (triple_sigprocmask calm awake₆ .setmask _).bind ?_
  rintro - - w₇ ⟨-, awake₇, kept₇⟩
  have stopped := Nat.le_trans kept₇.alarm kept₆.alarm
  refine .pure ⟨?_, by omega, by omega⟩
  simpa [How.apply] using awake₇

variable {oldact₀ : Sigaction (Catcher U)} {oldmask₀ : Mask}
    {history : List (Event Who Int (Act Nat) (Option Nat))}
  {c : Config Who (SignalSig (Catcher U)) Int (SignalWorld (Catcher U)) (Act Nat) Unit (Option Nat)}

/-- What `sleep` leaves behind. -/
def Slept (w₀ : SignalWorld (Catcher U)) (seconds unslept : Nat)
    (w : SignalWorld (Catcher U)) : Prop :=
  Awake w₀.action w₀.blocked w ∧ w.alarm = 0 ∧ unslept ≤ seconds

theorem Slept.around {w₀ : SignalWorld (Catcher U)} {seconds unslept : Nat}
    (slept : Slept w₀ seconds unslept w)
    (around : Around (catchers returns) w w') : Slept w₀ seconds unslept w' :=
  ⟨slept.1.around around, Nat.le_zero.1 (slept.2.1 ▸ around.alarm), slept.2.2⟩

/-- The functions are calls of `sleep` with these numbers of seconds. -/
theorem sleep_functions {Op : Type} (w₀ : SignalWorld (Catcher U)) (seconds : Op → Nat)
    (positive : timed → ∀ op, 0 < seconds op) :
    Functions (catchers returns) (Awaits timed) (fun op => sleep oldact₀ oldmask₀ (seconds op))
      (Awake w₀.action w₀.blocked)
      fun op unslept w => Slept w₀ (seconds op) unslept w where
  stable answers awaits := awaits.around (surround_around answers)
  later around awake := awake.around around
  reached around slept := slept.around around
  leave slept := slept.1
  triple op _ awake _ := triple_sleep awake fun isTimed => positive isTimed op

/-- The caller has no handlers. -/
def noHandlers : Empty → Bool := fun _ => true

/-- A local variable that nothing has been stored in. -/
def garbage : Sigaction (Catcher Empty) := ⟨.ignore, Mask.full, 0⟩

/-- `sleep(1)` from its call to its return. -/
def aSecond : List (Who × Option (Act Nat)) :=
  steps .process (.call 1) 4 ++ steps .surroundings .tick 2 ++
    steps .surroundings (.deliver Sig.alrm) 2 ++
    List.replicate 4 (.process, none)

/-- Whatever signals come and whenever: when `sleep` returns, all actions and the mask are as the
caller had them, no alarm is left, and no more time than was asked for has not been slept. -/
theorem sleep_restores (waiting : w.waiting = none) (caught : w.caught = false)
    (run : SignalRun (catchers returns) (sleep oldact₀ oldmask₀) w history c)
    {seconds unslept : Nat}
    (returned : about c = some (seconds, unslept)) :
    c.world.action = w.action ∧ c.world.blocked = w.blocked ∧ c.world.alarm = 0 ∧
      unslept ≤ seconds := by
  have functions : Functions (catchers returns) (Awaits False) (sleep oldact₀ oldmask₀)
      (Awake w.action w.blocked) (Slept w) :=
    sleep_functions w id fun isTimed => isTimed.elim
  obtain ⟨awake, stopped, few⟩ :=
    functions.about ⟨rfl, rfl, waiting, caught⟩ (awaits_of_not_waiting waiting) run returned
  exact ⟨awake.action, awake.blocked, stopped, few⟩

theorem sleep_restores_second :
    ∃ history c, SignalRun (catchers noHandlers) (sleep garbage Mask.full) .plain history c ∧
    about c = some (1, 0) ∧ c.world.action = SignalWorld.plain.action ∧
      c.world.blocked = Mask.empty ∧ c.world.alarm = 0 := by
  obtain ⟨history, c, run, returned⟩ :=
    signalRun_of_follow (catchers noHandlers) (sleep garbage Mask.full) .plain aSecond
    (fun c => about c = some (1, 0)) (by decide +kernel)
  obtain ⟨actions, mask, stopped, -⟩ := sleep_restores rfl rfl run (of_decide_eq_true returned)
  exact ⟨history, c, run, of_decide_eq_true returned, actions, mask, stopped⟩

/-- As long as a caller of `sleep` waits, the alarm is set, or `SIGALRM` can be delivered, or the
wait is over. -/
theorem sleeper_is_woken
    {history : List (Event Who Int (Act { seconds // 0 < seconds }) (Option Nat))}
    {c : Config Who (SignalSig (Catcher U)) Int (SignalWorld (Catcher U))
    (Act { seconds // 0 < seconds }) Unit (Option Nat)}
    (waiting : w.waiting = none) (caught : w.caught = false)
    (run : SignalRun (catchers returns)
    (fun seconds => sleep oldact₀ oldmask₀ seconds.1) w history c)
    (waits : c.world.waiting.isSome = true) :
    0 < c.world.alarm ∨ c.world.deliverable Sig.alrm = true ∨ c.world.caught = true := by
  have functions : Functions (catchers returns) (Awaits True)
      (fun seconds : { seconds // 0 < seconds } => sleep oldact₀ oldmask₀ seconds.1)
        (Awake w.action w.blocked)
      fun seconds => Slept w seconds.1 := sleep_functions w Subtype.val fun _ seconds => seconds.2
  obtain ⟨awaits, -⟩ :=
    functions.run ⟨rfl, rfl, waiting, caught⟩ (awaits_of_not_waiting waiting) run
  obtain ⟨armed, unblocked, -⟩ := awaits waits
  refine (armed trivial).imp_right (Or.imp_left fun pending => ?_)
  simp [SignalWorld.deliverable, pending, unblocked]

def second : { seconds : Nat // 0 < seconds } := ⟨1, by decide⟩

theorem sleeper_is_woken_second : ∃ history c,
    SignalRun (catchers noHandlers) (fun seconds : { seconds // 0 < seconds } =>
      sleep garbage Mask.full seconds.1) .plain history c ∧
    c.world.waiting.isSome = true ∧
    (0 < c.world.alarm ∨ c.world.deliverable Sig.alrm = true ∨ c.world.caught = true) := by
  obtain ⟨history, c, run, waits⟩ := signalRun_of_follow (catchers noHandlers)
    (fun seconds : { seconds // 0 < seconds } => sleep garbage Mask.full seconds.1) .plain
    (steps .process (.call second) 4)
    (fun c => c.world.waiting.isSome) (by decide +kernel)
  exact ⟨history, c, run, waits, sleeper_is_woken rfl rfl run waits⟩

/-! ## Without a mask -/

/-- What a caller of `sleep1` has to rely on. -/
structure Hopes (blocked : Mask) (w : SignalWorld (Catcher U)) : Prop where
  blocked : w.blocked = blocked
  noticed : w.waiting.isSome = true → w.Noticed ∧ (w.action Sig.alrm).handler = .handler .sigAlrm

theorem Hopes.around (hopes : Hopes blocked w) (around : Around (catchers returns) w w') :
    Hopes blocked w' := by
  refine ⟨around.blocked.trans hopes.blocked, fun waits => ?_⟩
  rw [around.waiting] at waits
  obtain ⟨noticed, handler⟩ := hopes.noticed waits
  rw [around.action]
  exact ⟨around.noticed (handled_sigAlrm handler) noticed, handler⟩

/-- The process waits for nothing. -/
def Up (w : SignalWorld (Catcher U)) : Prop := w.waiting = none ∧ w.caught = false

theorem Up.around (up : Up w) (around : Around (catchers returns) w w') : Up w' :=
  ⟨around.waiting.trans up.1, (around.caught up.1).trans up.2⟩

theorem Hopes.of_up (same : w.blocked = blocked) (up : Up w) : Hopes blocked w :=
  ⟨same, fun waits => by simp [up.1] at waits⟩

theorem triple_sleep1 (up : Up w) {seconds : Nat} (positive : 0 < seconds) :
    Triple (signalDiscipline (catchers returns) (Hopes blocked)) .process E w (sleep1 seconds) l
      fun _ _ w' => Up w' := by
  have signals : Triple (signalDiscipline (catchers returns) (Hopes blocked)) .process E w
      (signal Sig.alrm (.handler .sigAlrm)) l fun old _ w' => old.isSome = true ∧ Up w' ∧
        (w'.action Sig.alrm).handler = .handler .sigAlrm := by
    have sets : Triple (signalDiscipline (catchers returns) (Hopes blocked)) .process E w
        (sys (.sigaction Sig.alrm (some ⟨.handler .sigAlrm, Mask.empty, saInterrupt⟩))) l
        fun (old : Option (Sigaction (Catcher U))) _ w' => old.isSome = true ∧ Up w' ∧
          (w'.action Sig.alrm).handler = .handler .sigAlrm := by
      refine triple_signal fun τ around hopes _ old w' serves => ?_
      rw [serve_sigaction (by decide)] at serves
      cases serves
      have here := up.around around
      exact ⟨.of_up hopes.blocked here, rfl, here,
        congrArg Sigaction.handler (Function.update_self Sig.alrm _ τ.action)⟩
    exact sets.bind fun old _ w' fits => .pure ⟨Option.isSome_map.trans fits.1, fits.2⟩
  refine signals.bind ?_
  rintro old - w₁ ⟨isSome, up₁, handler₁⟩
  obtain ⟨old, rfl⟩ := Option.isSome_iff_exists.1 isSome
  have alarms : Triple (signalDiscipline (catchers returns) (Hopes blocked)) .process E w₁
      (sys (.alarm seconds)) l
      fun _ _ w' => Up w' ∧ 0 < w'.alarm ∧ (w'.action Sig.alrm).handler = .handler .sigAlrm := by
    refine triple_signal fun τ around hopes _ left w' serves => ?_
    cases serves
    have here := up₁.around around
    exact ⟨.of_up hopes.blocked here, here, positive, by rw [around.action]; exact handler₁⟩
  refine alarms.bind ?_
  rintro - - w₂ ⟨up₂, set, handler₂⟩
  have suspends : Triple (signalDiscipline (catchers returns) (Hopes blocked)) .process E w₂
      (sys (.suspend none)) l
      fun _ _ w' => w'.waiting = some blocked := by
    refine triple_signal fun τ around hopes _ _ w' serves => ?_
    cases serves
    refine ⟨⟨hopes.blocked,
      fun _ => ⟨?_, by rw [around.action]; exact handler₂⟩⟩, by rw [← hopes.blocked]⟩
    -- whatever has happened since the alarm was set is seen in the state
    have noticed := around.noticed (handled_sigAlrm handler₂) (.inl (.inl set))
    exact noticed.imp_left (Or.imp_right fun later =>
      .inl (later.resolve_right (by simp [(up₂.around around).2])))
  have resumes {w₃ : SignalWorld (Catcher U)} (waits : w₃.waiting = some blocked) :
      Triple (signalDiscipline (catchers returns) (Hopes blocked)) .process E w₃ (sys .resume) l
        fun _ _ w' => Up w' := by
    refine triple_signal fun τ around _ _ _ w' serves => ?_
    simp only [serve, around.waiting, waits] at serves
    split at serves
    · cases serves
      exact ⟨.of_up rfl ⟨rfl, rfl⟩, rfl, rfl⟩
    · cases serves
  have pauses : Triple (signalDiscipline (catchers returns) (Hopes blocked)) .process E w₂ pause l
      fun _ _ w' => Up w' :=
    suspends.bind fun _ _ _ waits => (resumes waits).bind fun _ _ _ up => .pure up
  refine pauses.bind ?_
  rintro - - w₃ up₃
  have stops : Triple (signalDiscipline (catchers returns) (Hopes blocked)) .process E w₃
      (sys (.alarm 0)) l
      fun _ _ w' => Up w' := by
    refine triple_signal fun τ around hopes _ left w' serves => ?_
    cases serves
    have here := up₃.around around
    exact ⟨.of_up hopes.blocked here, here⟩
  exact stops.bind fun _ _ _ up => .pure up

/-- A caller of `sleep1` that waits and that nothing will wake has blocked `SIGALRM`, or has missed
it: the handler has run between `alarm` and `pause`. -/
theorem sleep1_waits_in_vain
    {history : List (Event Who Int (Act { seconds // 0 < seconds }) (Option Nat))}
    {c : Config Who (SignalSig (Catcher U)) Int (SignalWorld (Catcher U))
    (Act { seconds // 0 < seconds }) Unit (Option Nat)}
    (waiting : w.waiting = none) (caught : w.caught = false)
    (run : SignalRun (catchers returns) (fun seconds => sleep1 seconds.1) w history c)
    (waits : c.world.waiting.isSome = true)
    (stopped : c.world.alarm = 0) (nothing : c.world.deliverable Sig.alrm = false)
    (asleep : c.world.caught = false) :
    w.blocked Sig.alrm = true ∨ c.world.early Sig.alrm = true := by
  have functions : Functions (catchers returns) (Hopes w.blocked)
      (fun seconds : { seconds // 0 < seconds } => sleep1 seconds.1) Up
      fun _ _ => Up :=
    { stable := fun answers hopes => hopes.around (surround_around answers)
      later := fun around up => up.around around
      reached := fun around up => up.around around
      leave := id
      triple := fun seconds _ up _ => triple_sleep1 up seconds.2 }
  obtain ⟨hopes, -⟩ := functions.run ⟨waiting, caught⟩ (.of_up rfl ⟨waiting, caught⟩) run
  obtain ⟨armed | early, -⟩ := hopes.noticed waits
  · obtain set | pending | woken := armed
    · omega
    · left
      rw [← hopes.blocked]
      have both : c.world.blocked Sig.alrm = true ∧ Sig.alrm ≠ Sig.kill := by
        simpa [SignalWorld.deliverable, pending] using nothing
      exact both.1
    · simp [woken] at asleep
  · exact .inr early

/-- The alarm goes off, and the handler runs, before `pause`. -/
def tooEarly : List (Who × Option (Act { seconds : Nat // 0 < seconds })) :=
  steps .process (.call second) 2 ++ steps .surroundings .tick 2 ++
    steps .surroundings (.deliver Sig.alrm) 2 ++ [(.process, none)]

theorem sleep1_waits_in_vain_second : ∃ history c,
    SignalRun (catchers noHandlers) (fun seconds : { seconds // 0 < seconds } => sleep1 seconds.1)
      .plain history c ∧
    c.world.waiting.isSome = true ∧ c.world.alarm = 0 ∧ c.world.early Sig.alrm = true := by
  obtain ⟨history, c, run, vain⟩ := signalRun_of_follow (catchers noHandlers)
    (fun seconds : { seconds // 0 < seconds } => sleep1 seconds.1) .plain tooEarly
    (fun c => c.world.waiting.isSome && c.world.alarm == 0 && !c.world.deliverable Sig.alrm &&
      !c.world.caught)
    (by decide +kernel)
  simp only [Bool.and_eq_true, beq_iff_eq, Bool.not_eq_true'] at vain
  obtain ⟨⟨⟨waits, stopped⟩, nothing⟩, asleep⟩ := vain
  have missed := (sleep1_waits_in_vain rfl rfl run waits stopped nothing asleep).resolve_left
    (by decide)
  exact ⟨history, c, run, waits, stopped, missed⟩

end

end Apue.Lib.Sleep
