import Apue.Lib.Semaph

/-! # The lock of a semaphore set

Whatever the processes do, and with any number of handles, at most one of them is between the
`semop` that takes the lock and the one that gives it back or the `IPC_RMID`, and the kernel takes
the lock back from one that exits there.  So only the process that has the lock removes the set, and
only one that sleeps in `sem_create` can be caught by it: its `semop` fails with `EIDRM`, for which
there is no second try.
-/

namespace Apue.Lib.Semaph

open Apue.Base

variable {τ : Type} [DecidableEq τ] {s s' : State τ} {t u : τ} {holder : Option τ}

/-! ## Who has the lock -/

/-- The holder of the lock is the one process that is inside, and the value and the adjustments say
so. -/
structure State.Locked (s : State τ) (holder : Option τ) : Prop where
  inside : ∀ t, (s.pc t).inside = if holder = some t then some s.semid else none
  lock : ∀ set, s.set = some set → set.semval .lock = if holder = none then 0 else 1
  adjusted : ∀ set, s.set = some set → ∀ t, set.semadj t .lock = if holder = some t then -1 else 0
  present : s.set = none → holder = none

omit [DecidableEq τ] in
theorem State.find_eq_some {id : Nat} {set : SemSet Member τ} (found : s.find id = some set) :
    id = s.semid ∧ s.set = some set := by
  unfold State.find at found
  split at found
  · exact ⟨by assumption, found⟩
  · cases found

omit [DecidableEq τ] in
theorem State.find_ne_none {id : Nat} (found : s.find id ≠ none) : id = s.semid ∧ s.set ≠ none := by
  obtain ⟨set, here⟩ := Option.ne_none_iff_exists'.mp found
  obtain ⟨same, present⟩ := State.find_eq_some here
  exact ⟨same, by simp [present]⟩

theorem State.goto_pc (s : State τ) (t u : τ) (pc : Pc) :
    (s.goto t pc).pc u = if u = t then pc else s.pc u := by
  simp [State.goto, Function.update_apply]

namespace State.Locked

theorem start : (State.start : State τ).Locked none :=
  ⟨fun _ => rfl, fun _ found => (by cases found), fun _ found => (by cases found), fun _ => rfl⟩

theorem inside_iff (locked : s.Locked holder) : (s.pc t).inside ≠ none ↔ holder = some t := by
  rw [locked.inside]
  split <;> simp_all

/-- A process that is inside has the lock of the set that is there. -/
theorem holds (locked : s.Locked holder) {id : Nat} (inside : (s.pc t).inside = some id) :
    holder = some t ∧ id = s.semid := by
  have holds : holder = some t := locked.inside_iff.mp (by simp [inside])
  rw [locked.inside, if_pos holds] at inside
  exact ⟨holds, (Option.some.inj inside).symm⟩

theorem outside (locked : s.Locked holder) (other : holder ≠ some t) : (s.pc t).inside = none :=
  (locked.inside t).trans (if_neg other)

theorem exists_set (locked : s.Locked holder) (holds : holder = some t) : s.set ≠ none := by
  intro none
  simp [locked.present none] at holds

/-- Nobody is inside while the lock is free. -/
theorem nobody (locked : s.Locked holder) {set : SemSet Member τ} (here : s.set = some set)
    (free : set.semval .lock = 0) :
    holder = none := by
  by_contra held
  have one := locked.lock set here
  rw [free, if_neg held] at one
  cases one

/-- A step of one process that leaves the lock alone. -/
theorem goto (locked : s.Locked holder) {pc : Pc} (inside : pc.inside = (s.pc t).inside) :
    (s.goto t pc).Locked holder where
  inside u := by
    rw [goto_pc]
    split
    · subst u
      rw [inside]
      exact locked.inside t
    · exact locked.inside u
  lock := locked.lock
  adjusted := locked.adjusted
  present := locked.present

/-- A change of the set that leaves the lock alone. -/
theorem replace (locked : s.Locked holder) {set : SemSet Member τ} (here : s.set = some set)
    (set' : SemSet Member τ)
    (same : set'.semval .lock = set.semval .lock)
    (adjusted : ∀ t, set'.semadj t .lock = set.semadj t .lock)
    (initialised : Bool) (handles : List (τ × Nat)) :
    State.Locked { s with set := some set', initialised := initialised, handles := handles }
      holder where
  inside := locked.inside
  lock other found := by
    cases found
    rw [same]
    exact locked.lock set here
  adjusted other found t := by
    cases found
    rw [adjusted]
    exact locked.adjusted set here t
  present none := by cases none

/-- A process takes the lock and goes inside. -/
theorem take (locked : s.Locked holder) {set set' : SemSet Member τ} (here : s.set = some set)
    (free : set.semval .lock = 0)
    (taken : set'.semval .lock = 1)
    (adjusted : ∀ u, set'.semadj u .lock = set.semadj u .lock - if u = t then 1 else 0)
    {pc : Pc} (inside : pc.inside = some s.semid) (handles : List (τ × Nat)) :
    (State.goto { s with set := some set', handles := handles } t pc).Locked (some t) where
  inside u := by
    rw [goto_pc]
    split
    · subst u
      rw [if_pos rfl, inside]
      rfl
    -- nobody else was inside, since the lock was free
    · rename_i other
      rw [if_neg (by simpa [eq_comm] using other)]
      have outside := locked.inside u
      rwa [locked.nobody here free, if_neg (by simp)] at outside
  lock other found := by
    cases found
    rw [taken, if_neg (by simp)]
  adjusted other found u := by
    cases found
    rw [adjusted, locked.adjusted set here, locked.nobody here free, if_neg (by simp)]
    by_cases own : u = t
    · simp [own]
    · simp [own, Ne.symm own]
  present none := by cases none

/-- A process gives the lock back and goes outside. -/
theorem give (locked : s.Locked (some t)) {set set' : SemSet Member τ} (here : s.set = some set)
    (given : set'.semval .lock = set.semval .lock - 1)
    (adjusted : ∀ u, set'.semadj u .lock = set.semadj u .lock + if u = t then 1 else 0) {pc : Pc}
    (outside : pc.inside = none)
    (handles : List (τ × Nat)) :
    (State.goto { s with set := some set', handles := handles } t pc).Locked none where
  inside u := by
    rw [goto_pc, if_neg (show ¬(none : Option τ) = some u by simp)]
    split
    · exact outside
    · rename_i other
      have before := locked.inside u
      rwa [if_neg (by simpa [eq_comm] using other)] at before
  lock other found := by
    cases found
    rw [given, locked.lock set here]
    simp
  adjusted other found u := by
    cases found
    rw [adjusted, locked.adjusted set here]
    by_cases own : u = t
    · simp [own]
    · simp [own, Ne.symm own]
  present _ := rfl

/-- A set is created while there is none. -/
theorem create (locked : s.Locked holder) (absent : s.set = none) {pc : Pc}
    (outside : pc.inside = none) :
    (State.goto { s with set := some .zero, semid := s.semid + 1, initialised := false } t
    pc).Locked none where
  inside u := by
    rw [goto_pc, if_neg (show ¬(none : Option τ) = some u by simp)]
    split
    · exact outside
    -- without a set nobody was inside
    · have before := locked.inside u
      rwa [locked.present absent, if_neg (by simp)] at before
  lock other found := by
    cases found
    rfl
  adjusted other found u := by
    cases found
    rfl
  present _ := rfl

/-- The holder removes the set. -/
theorem remove (locked : s.Locked (some t)) {pc : Pc} (outside : pc.inside = none) :
    (State.goto { s with set := none } t pc).Locked none where
  inside u := by
    rw [goto_pc, if_neg (show ¬(none : Option τ) = some u by simp)]
    split
    · exact outside
    · rename_i other
      have before := locked.inside u
      rwa [if_neg (by simpa [eq_comm] using other)] at before
  lock other found := by cases found
  adjusted other found u := by cases found
  present _ := rfl

/-- The kernel gives the lock back when the holder exits. -/
theorem exit (locked : s.Locked holder) (handles : List (τ × Nat)) :
    (State.goto { s with set := s.set.map fun set => set.exit t, handles := handles } t
    .exited).Locked
      (if holder = some t then none else holder) where
  inside u := by
    rw [goto_pc]
    split
    · subst u
      rw [if_neg]
      · rfl
      · split <;> simp_all
    · rename_i other
      have before := locked.inside u
      by_cases holds : holder = some t
      · rw [if_pos holds, if_neg (by simp)]
        rwa [holds, if_neg (by simpa [eq_comm] using other)] at before
      · rw [if_neg holds]
        exact before
  lock set' found := by
    obtain ⟨set, here, rfl⟩ := Option.map_eq_some_iff.mp found
    -- the adjustment is -1 for the holder and 0 for any other process, so nothing is clamped
    rw [SemSet.exit_semval, locked.lock set here, locked.adjusted set here]
    by_cases holds : holder = some t
    · simp [holds, semvmx]
    · cases holder
      · simp [semvmx]
      · simp [holds, semvmx]
  adjusted set' found u := by
    obtain ⟨set, here, rfl⟩ := Option.map_eq_some_iff.mp found
    rw [SemSet.exit_semadj, locked.adjusted set here]
    by_cases own : u = t
    · subst own
      by_cases holds : holder = some u
      · simp [holds]
      · simp [holds]
    · by_cases holds : holder = some t
      · simp [holds, own, Ne.symm own]
      · simp [holds, own]
  present none := by
    rw [locked.present (Option.map_eq_none_iff.mp none)]
    simp

theorem moves (locked : s.Locked holder) (moves : s.Moves t s') : ∃ holder', s'.Locked holder' := by
  cases moves with
  | sleeps id at_ found =>
    exact ⟨holder, locked.inside, locked.lock, locked.adjusted, locked.present⟩
  | fails failure why => exact ⟨holder, locked.goto rfl⟩
  | goes pc outside before plain => exact ⟨holder, locked.goto (outside.trans before.symm)⟩
  | created initval at_ absent => exact ⟨none, locked.create absent rfl⟩
  -- the wait for 0 has found the lock free
  | locked initval id set at_ found free =>
    obtain ⟨rfl, here⟩ := find_eq_some found
    refine ⟨some t, locked.take here free ?_ (fun u => ?_) rfl s.handles⟩
    · simp [SemSet.add_semval, free]
    · simp only [SemSet.add_semadj, and_true, true_and]
      split_ifs <;> simp
  | unset initval id set at_ found zero => exact ⟨holder, locked.goto (by rw [at_]; rfl)⟩
  | isSet initval id set at_ found nonzero => exact ⟨holder, locked.goto (by rw [at_]; rfl)⟩
  -- `SETVAL` of the other members leaves the lock and its adjustments alone
  | setsValue initval id set at_ found =>
    have same := locked.replace (find_eq_some found).2 (set.setval .value initval) (by simp)
      (by simp) s.initialised
      s.handles
    exact ⟨holder, same.goto (by rw [at_]; rfl)⟩
  | setsCounter id set at_ found =>
    have same := locked.replace (find_eq_some found).2 (set.setval .counter bigcount) (by simp)
      (by simp) true
      s.handles
    exact ⟨holder, same.goto (by rw [at_]; rfl)⟩
  | creates id set at_ found =>
    obtain ⟨rfl, -⟩ := locked.holds (show (s.pc t).inside = some id by rw [at_]; rfl)
    refine ⟨none, locked.give (find_eq_some found).2 ?_ (fun u => ?_) rfl ((t, id) :: s.handles)⟩
    · simp [SemSet.add_semval, Int.sub_eq_add_neg]
    · simp only [SemSet.add_semadj, reduceCtorEq, and_false, if_false, and_true, true_and]
      split_ifs <;> simp
  | opens id set at_ found enough =>
    have same := locked.replace (find_eq_some found).2
      (set.add t ⟨.counter, -1, true⟩) (by simp [SemSet.add_semval])
      (by simp [SemSet.add_semadj]) s.initialised ((t, id) :: s.handles)
    exact ⟨holder, same.goto (by rw [at_]; rfl)⟩
  | operates id set value at_ found =>
    have same := locked.replace (find_eq_some found).2
      (set.add t ⟨.value, value, true⟩) (by simp [SemSet.add_semval])
      (by simp [SemSet.add_semadj]) s.initialised s.handles
    exact ⟨holder, same.goto (by rw [at_]; rfl)⟩
  | closes id set at_ found free =>
    obtain ⟨rfl, here⟩ := find_eq_some found
    refine ⟨some t, locked.take here free ?_ (fun u => ?_) rfl (s.handles.erase (t, s.semid))⟩
    · simp [SemSet.add_semval, free]
    · simp only [SemSet.add_semadj, reduceCtorEq, and_false, if_false, and_true, true_and]
      split_ifs <;> simp
  | last id set at_ found full => exact ⟨holder, locked.goto (by rw [at_]; rfl)⟩
  | others id at_ => exact ⟨holder, locked.goto (by rw [at_]; rfl)⟩
  | removes id at_ found =>
    obtain ⟨rfl, -⟩ := locked.holds (show (s.pc t).inside = some id by rw [at_]; rfl)
    exact ⟨none, locked.remove rfl⟩
  | unlocks id set at_ found =>
    obtain ⟨rfl, -⟩ := locked.holds (show (s.pc t).inside = some id by rw [at_]; rfl)
    refine ⟨none, locked.give (find_eq_some found).2 ?_ (fun u => ?_) rfl s.handles⟩
    · simp [SemSet.add_semval, Int.sub_eq_add_neg]
    · simp only [SemSet.add_semadj, and_true, true_and]
      split_ifs <;> simp

theorem step (locked : s.Locked holder) {action : Action τ} (steps : s.step action = some s') :
    ∃ holder', s'.Locked holder' := by
  obtain ⟨t, -, moves⟩ | ⟨t, pc, outside, before, -, -, rfl⟩ | ⟨t, -, rfl⟩ := step_cases steps
  · exact locked.moves moves
  · exact ⟨holder, locked.goto (outside.trans before.symm)⟩
  · exact ⟨_, locked.exit _⟩

end State.Locked

theorem run_locked {actions : List (Action τ)} (visits : Visits State.step .start actions s) :
    ∃ holder, s.Locked holder :=
  visits.invariant (fun s => ∃ holder, s.Locked holder) (fun _ _ => True) ⟨none, .start⟩
    (fun _ _ _ locked _ steps => locked.choose_spec.step steps) (fun _ _ _ => trivial)

/-! ## Creating while others close -/

/-- The set is removed while a process sleeps in `sem_create` for its lock. -/
def RemovesUnderSleeper (s : State τ) (action : Action τ) : Prop :=
  ∃ t u initval id, action = .run t ∧ s.pc t = .remove id ∧ s.pc u = .lock initval id ∧
    s.asleep u = true

/-- Who sleeps in `sem_create` sleeps on a set that is there, and no `sem_create` has failed for
want of one. -/
structure State.Survives (s : State τ) : Prop where
  sleeping : ∀ u initval id, s.pc u = .lock initval id → s.asleep u = true → s.find id ≠ none
  failures : ∀ u errno held, s.pc u = .failed (.syscall .create errno) held → errno = .erange

namespace State.Survives

omit [DecidableEq τ] in
theorem start : (State.start : State τ).Survives :=
  ⟨fun _ _ _ at_ => (by cases at_), fun _ _ _ at_ => (by cases at_)⟩

/-- The process that moves is awake then, and the others keep the set they sleep on. -/
theorem goto (survives : s.Survives) (mid : State τ) (pcs : mid.pc = s.pc)
    (asleep : mid.asleep = s.asleep)
    (kept : ∀ u initval id, u ≠ t → s.pc u = .lock initval id → s.asleep u = true →
    s.find id ≠ none → mid.find id ≠ none)
    {pc : Pc} (fine : ∀ errno held, pc = .failed (.syscall .create errno) held → errno = .erange) :
    (mid.goto t pc).Survives where
  sleeping u initval id at_ sleeps := by
    by_cases own : u = t
    · subst own
      simp [State.goto] at sleeps
    · rw [goto_pc, if_neg own, pcs] at at_
      have slept : s.asleep u = true := by simpa [State.goto, own, asleep] using sleeps
      exact kept u initval id own at_ slept (survives.sleeping u initval id at_ slept)
  failures u errno held at_ := by
    rw [goto_pc] at at_
    split at at_
    · exact fine errno held at_
    · exact survives.failures u errno held (pcs ▸ at_)

/-- A step on the set as it is. -/
theorem goto_same (survives : s.Survives) {pc : Pc}
    (fine : ∀ errno held, pc = .failed (.syscall .create errno) held → errno = .erange) :
    (s.goto t pc).Survives :=
  survives.goto s rfl rfl (fun _ _ _ _ _ _ => id) fine

/-- A step that changes the set. -/
theorem goto_set (survives : s.Survives) (set : SemSet Member τ) (initialised : Bool)
    (handles : List (τ × Nat)) {pc : Pc}
    (fine : ∀ errno held, pc = .failed (.syscall .create errno) held → errno = .erange) :
    (State.goto { s with set := some set, initialised := initialised, handles := handles } t
    pc).Survives := by
  refine survives.goto { s with set := some set, initialised := initialised, handles := handles } rfl rfl
    (fun u initval id _ _ _ found => ?_) fine
  obtain ⟨rfl, -⟩ := find_ne_none found
  simp [find]

theorem moves (survives : s.Survives) (locked : s.Locked holder)
    (allowed : ¬RemovesUnderSleeper s (.run t))
    (moves : s.Moves t s') : s'.Survives := by
  cases moves with
  | sleeps id at_ found =>
    refine ⟨fun u initval id' at' sleeps => ?_, survives.failures⟩
    -- it falls asleep in the `semop` on a set that it has found
    by_cases own : u = t
    · subst own
      have same : id' = id := by
        rw [show s.pc u = .lock initval id' from at'] at at_
        exact Option.some.inj at_
      exact same ▸ found
    · exact survives.sleeping u initval id' at' (by simpa [own] using sleeps)
  | fails failure why =>
    refine survives.goto_same fun errno held same => ?_
    obtain ⟨rfl, -⟩ := Pc.failed.inj same
    obtain range | ⟨id, missing, inside | ⟨-, ⟨initval, at_⟩, sleeps⟩⟩ := why errno rfl
    · exact range
    · -- the set of a process that is inside is there
      obtain ⟨held, rfl⟩ := locked.holds inside
      obtain ⟨set, present⟩ := Option.ne_none_iff_exists'.mp (locked.exists_set held)
      simp [find, present] at missing
    · exact absurd missing (survives.sleeping t initval id at_ sleeps)
  | goes pc outside before plain =>
    exact survives.goto_same fun errno held same => absurd same (plain.2 _ _)
  | created initval at_ absent =>
    refine survives.goto { s with set := some .zero, semid := s.semid + 1, initialised := false } rfl rfl
      (fun u initval' id _ _ _ found => ?_) (by simp)
    exact absurd absent (find_ne_none found).2
  | locked initval id set at_ found free => exact survives.goto_set _ _ _ (by simp)
  | unset initval id set at_ found zero => exact survives.goto_same (by simp)
  | isSet initval id set at_ found nonzero => exact survives.goto_same (by simp)
  | setsValue initval id set at_ found => exact survives.goto_set _ _ _ (by simp)
  | setsCounter id set at_ found => exact survives.goto_set _ _ _ (by simp)
  | creates id set at_ found => exact survives.goto_set _ _ _ (by simp)
  | opens id set at_ found enough => exact survives.goto_set _ _ _ (by simp)
  | operates id set value at_ found => exact survives.goto_set _ _ _ (by simp)
  | closes id set at_ found free => exact survives.goto_set _ _ _ (by simp)
  | last id set at_ found full => exact survives.goto_same (by simp)
  | others id at_ => exact survives.goto_same (by simp)
  -- the one step that takes the set away, with nobody asleep on it by assumption
  | removes id at_ found =>
    refine survives.goto { s with set := none } rfl rfl (fun u initval id' _ at' sleeps found' =>
      ?_) (by simp)
    obtain ⟨rfl, -⟩ := find_ne_none found
    obtain ⟨rfl, -⟩ := find_ne_none found'
    exact absurd ⟨t, u, initval, _, rfl, at_, at', sleeps⟩ allowed
  | unlocks id set at_ found => exact survives.goto_set _ _ _ (by simp)

theorem step (survives : s.Survives) (locked : s.Locked holder) {action : Action τ}
    (allowed : ¬RemovesUnderSleeper s action) (steps : s.step action = some s') : s'.Survives := by
  obtain ⟨t, rfl, moves⟩ | ⟨t, pc, -, -, -, plain, rfl⟩ | ⟨t, -, rfl⟩ := step_cases steps
  · exact survives.moves locked allowed moves
  · exact survives.goto_same fun errno held same => absurd same (plain _ _)
  · refine survives.goto { s with
      set := s.set.map fun set => set.exit t, handles :=
        s.handles.filter fun handle => handle.1 ≠ t } rfl rfl
      (fun u initval id _ _ _ found => ?_) (by simp)
    obtain ⟨rfl, present⟩ := find_ne_none found
    simpa [find] using present

end State.Survives

/-- The last system call of `sem_create`. -/
theorem State.creates_of_idle {id : Nat} (at_ : s.pc t = .endCreate id)
    (steps : s.step (.run t) = some s')
    (idle : s'.pc t = .idle) : s.find id ≠ none ∧ s'.handles = (t, id) :: s.handles := by
  cases run_moves steps with
  | sleeps => simp [at_] at idle
  | fails => simp [fail, goto] at idle
  | goes pc outside before plain => simp [at_, Pc.inside] at before
  | creates other set at' found =>
    obtain rfl : id = other := by simpa [at_] using at'
    exact ⟨by simp [found], rfl⟩
  | created initval at' => simp [at_] at at'
  | locked initval other set at' => simp [at_] at at'
  | unset initval other set at' => simp [at_] at at'
  | isSet initval other set at' => simp [at_] at at'
  | setsValue initval other set at' => simp [at_] at at'
  | setsCounter other set at' => simp [at_] at at'
  | opens other set at' => simp [at_] at at'
  | operates other set value at' => simp [at_] at at'
  | closes other set at' => simp [at_] at at'
  | last other set at' => simp [at_] at at'
  | others other at' => simp [at_] at at'
  | removes other at' => simp [at_] at at'
  | unlocks other set at' => simp [at_] at at'

/-- Who sleeps in `sem_create` while the set is removed ends. -/
theorem State.Locked.removal_ends (locked : s.Locked holder) {action : Action τ}
    (removes : RemovesUnderSleeper s action) :
    ∃ s₁ u s₂ held, s.step action = some s₁ ∧ s₁.step (.run u) = some s₂ ∧
      s₂.pc u = .failed (.syscall .create .eidrm) held := by
  obtain ⟨t, u, initval, id, rfl, at_, at', sleeps⟩ := removes
  obtain ⟨held, rfl⟩ := locked.holds (show (s.pc t).inside = some id by rw [at_]; rfl)
  obtain ⟨set, present⟩ := Option.ne_none_iff_exists'.mp (locked.exists_set held)
  have differ : u ≠ t := by
    rintro rfl
    simp [at_] at at'
  -- the sleeper wakes up without a set
  let removed := State.goto { s with set := none } t .idle
  have still : removed.pc u = .lock initval s.semid := by rw [goto_pc, if_neg differ, at']
  have slept : removed.asleep u = true := by simp [removed, State.goto, differ, sleeps]
  refine ⟨removed, u, removed.fail u (.syscall .create .eidrm), none, ?_, ?_, ?_⟩
  · simp [State.step, run, at_, find, present, removed]
  · have gone : removed.find s.semid = none := by simp [find, removed, State.goto]
    simp [State.step, run, still, State.semop, gone, slept]
  · simp [fail, goto_pc, still, Pc.inside]

/-- In a run in which nobody removes the set from under a process that sleeps in `sem_create`, no
`sem_create` ends its process for want of a set, and in every run the set is there when the counter
goes down.  After a removal of that kind the sleeper ends. -/
theorem create_survives_removal (actions : List (Action τ)) (s : State τ)
    (visits : Visits State.step .start actions s) :
    ((∀ s₁ action, Takes State.step .start actions s₁ action → ¬RemovesUnderSleeper s₁ action) →
      ∀ t errno held, s.pc t = .failed (.syscall .create errno) held → errno = .erange) ∧
      (∀ t id s', s.pc t = .endCreate id → s.step (.run t) = some s' → s'.pc t = .idle →
        s.find id ≠ none ∧ s'.handles = (t, id) :: s.handles) ∧
      ∀ action, RemovesUnderSleeper s action → ∃ s₁ u s₂ held, s.step action = some s₁ ∧
        s₁.step (.run u) = some s₂ ∧
        s₂.pc u = .failed (.syscall .create .eidrm) held := by
  obtain ⟨holder, locked⟩ := run_locked visits
  refine ⟨fun meets t errno held ended => ?_, fun t id s' at_ steps idle => ?_,
    fun action removes => ?_⟩
  · have both : (∃ holder, s.Locked holder) ∧ s.Survives :=
      visits.invariant (fun s => (∃ holder, s.Locked holder) ∧
        s.Survives) (fun s action => ¬RemovesUnderSleeper s action)
        ⟨⟨none, .start⟩, .start⟩
        (fun _ _ _ both allowed steps =>
          ⟨both.1.choose_spec.step steps, both.2.step both.1.choose_spec allowed steps⟩) meets
    exact both.2.failures t errno held ended
  · exact State.creates_of_idle at_ steps idle
  · exact locked.removal_ends removes

section Runs

/-- Two processes. -/
abbrev Two := Bool

/-- The first one creates the semaphore. -/
def creating (t : Two) : List (Action Two) := .call t (.create 1) :: List.replicate 6 (.run t)

/-- It is created, closed and with that removed while the other process is between `semget` and the
lock, which then starts again. -/
def removedBefore : List (Action Two) :=
  creating true ++ [.call false (.create 1), .run false, .call true (.close 1), .run true,
    .run true, .run true] ++
    List.replicate 7 (.run false)

theorem create_survives_removal_before : ∃ s, execute State.step .start removedBefore = some s ∧
    s.handles = [(false, 2)] ∧ ∀ t errno held, s.pc t = .failed (.syscall .create errno) held →
      errno = .erange := by
  have evaluates : (execute State.step .start removedBefore).map State.handles =
    some [(false, 2)] := by decide
  obtain ⟨s, runs, handles⟩ := Option.map_eq_some_iff.mp evaluates
  refine ⟨s, runs, handles, (create_survives_removal removedBefore s (.finish runs)).1
    fun s₁ action takes removes => ?_⟩
  have awake : allTaken State.step (fun s _ => !s.asleep true && !s.asleep false) .start
    removedBefore = true := by decide
  have nobody := takes.of_allTaken awake
  obtain ⟨-, u, -, -, -, -, -, sleeps⟩ := removes
  cases u <;> simp [sleeps] at nobody

/-- The last `sem_close` removes the set while the other process sleeps for the lock. -/
def removedAsleep : List (Action Two) :=
  creating true ++ [.call false (.create 1), .run false, .call true (.close 1), .run true,
    .run false, .run true, .run true,
    .run false]

/-- `sem_create` ends its process with `EIDRM`. -/
theorem create_ends : ∃ s, execute State.step .start removedAsleep = some s ∧
    s.pc false = .failed (.syscall .create .eidrm) none := ⟨_, rfl, rfl⟩

end Runs

end Apue.Lib.Semaph
