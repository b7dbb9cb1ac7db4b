import Apue.Lib.SemaphLock
import Mathlib.Data.List.Count

/-! # The counter of a semaphore set

As long as fewer than `BIGCOUNT` handles are open, the counter is `BIGCOUNT` less the number of open
handles from the moment it has been set, and before that nobody has a handle.  The lock makes
`sem_create` and `sem_close` see it right; `sem_open` goes by without the lock, and can come between
the `GETVAL` and the `IPC_RMID` of a `sem_close`.
-/

namespace Apue.Lib.Semaph

open Apue.Base

variable {τ : Type} [DecidableEq τ] {s s' : State τ} {t u : τ} {holder : Option τ}

/-! ## The count -/

/-- How many of the handles are of that set. -/
def openOf (handles : List (τ × Nat)) (id : Nat) : Nat := handles.countP fun handle => handle.2 = id

/-- How many handles of the newest set are open. -/
def State.openHandles (s : State τ) : Nat := openOf s.handles s.semid

structure State.Counted (s : State τ) : Prop where
  old : ∀ handle ∈ s.handles, handle.2 ≤ s.semid
  counter : ∀ set, s.set = some set →
    set.semval .counter = if s.initialised then bigcount - s.openHandles else 0
  unused : s.initialised = false → s.openHandles = 0
  adjusted : ∀ set, s.set = some set → ∀ t, set.semadj t .counter = s.handles.count (t, s.semid)
  setting : ∀ t id initval, s.pc t = .setValue initval id ∨ s.pc t = .setCounter id →
    s.initialised = false
  ready : ∀ t id, s.pc t = .endCreate id ∨ s.pc t = .remove id → s.initialised = true
  closing : ∀ t id, s.pc t = .closeLock id → (t, id) ∈ s.handles

section Handles

variable {handles : List (τ × Nat)} {id : Nat}

theorem count_le_openOf (handles : List (τ × Nat)) (t : τ) (id : Nat) :
    handles.count (t, id) ≤ openOf handles id := by
  rw [List.count]
  refine List.countP_mono_left fun handle _ same => ?_
  obtain rfl : handle = (t, id) := by simpa using same
  simp

omit [DecidableEq τ] in
theorem openOf_pos (member : (t, id) ∈ handles) : 0 < openOf handles id :=
  List.countP_pos_iff.mpr ⟨_, member, by simp⟩

omit [DecidableEq τ] in
theorem openOf_eq_zero : openOf handles id = 0 ↔ ∀ handle ∈ handles, handle.2 ≠ id := by
  simp [openOf, List.countP_eq_zero]

omit [DecidableEq τ] in
theorem openOf_cons (handles : List (τ × Nat)) (t : τ) (id : Nat) :
    openOf ((t, id) :: handles) id = openOf handles id + 1 := by
  simp [openOf]

theorem openOf_erase (member : (t, id) ∈ handles) :
    openOf (handles.erase (t, id)) id = openOf handles id - 1 := by
  rw [openOf, List.countP_erase, if_pos ⟨member, by simp⟩, openOf]

/-- Those of one process and the others. -/
theorem openOf_filter (handles : List (τ × Nat)) (t : τ) (id : Nat) :
    openOf (handles.filter fun handle => handle.1 ≠ t) id + handles.count (t, id) = openOf handles id := by
  unfold openOf
  -- on the handles, by whose they are and of which set
  induction handles with
  | nil => rfl
  | cons handle handles inductionHypothesis =>
    obtain ⟨u, other⟩ := handle
    by_cases own : u = t
    · subst own
      by_cases same : other = id
      · subst same
        simp at inductionHypothesis ⊢
        omega
      · simp [same] at inductionHypothesis ⊢
        omega
    · by_cases same : other = id
      · subst same
        simp [own] at inductionHypothesis ⊢
        omega
      · simp [own, same] at inductionHypothesis ⊢
        omega

end Handles

/-! ## Places -/

/-- What is so while a process is at that place. -/
def State.Fits (s : State τ) (t : τ) : Pc → Prop
  | .setValue _ _ | .setCounter _ => s.initialised = false
  | .endCreate _ | .remove _ => s.initialised = true
  | .closeLock id => (t, id) ∈ s.handles
  | _ => True

section Fits

variable {pc : Pc}

omit [DecidableEq τ] in
/-- Outside the lock only a `sem_close` needs something, its handle. -/
theorem State.Fits.of_outside (outside : pc.inside = none)
    (closing : ∀ id, pc = .closeLock id → (t, id) ∈ s.handles) :
    s.Fits t pc := by
  cases pc with
  | setValue | setCounter | endCreate | remove => cases outside
  | closeLock id => exact closing id rfl
  | _ => trivial

omit [DecidableEq τ] in
theorem State.Fits.mono (fits : s.Fits t pc) (initialised : s'.initialised = s.initialised)
    (handles : ∀ id, (t, id) ∈ s.handles → (t, id) ∈ s'.handles) : s'.Fits t pc := by
  cases pc with
  | setValue | setCounter | endCreate | remove => exact initialised.trans fits
  | closeLock id => exact handles id fits
  | _ => trivial

end Fits

namespace State.Counted

theorem fits (counted : s.Counted) (t : τ) : s.Fits t (s.pc t) := by
  cases at_ : s.pc t with
  | setValue initval id => exact counted.setting t id initval (.inl at_)
  | setCounter id => exact counted.setting t id 0 (.inr at_)
  | endCreate id => exact counted.ready t id (.inl at_)
  | remove id => exact counted.ready t id (.inr at_)
  | closeLock id => exact counted.closing t id at_
  | _ => trivial

theorem of_fits (old : ∀ handle ∈ s.handles, handle.2 ≤ s.semid)
    (counter : ∀ set, s.set = some set →
    set.semval .counter = if s.initialised then bigcount - s.openHandles else 0)
    (unused : s.initialised = false → s.openHandles = 0)
    (adjusted : ∀ set, s.set = some set → ∀ u, set.semadj u .counter = s.handles.count (u, s.semid))
    (fits : ∀ u, s.Fits u (s.pc u)) : s.Counted where
  old := old
  counter := counter
  unused := unused
  adjusted := adjusted
  setting u id initval at_ := by
    have fits := fits u
    obtain at_ | at_ := at_
    · rwa [at_] at fits
    · rwa [at_] at fits
  ready u id at_ := by
    have fits := fits u
    obtain at_ | at_ := at_
    · rwa [at_] at fits
    · rwa [at_] at fits
  closing u id at_ := by
    have fits := fits u
    rwa [at_] at fits

theorem start : (State.start : State τ).Counted :=
  of_fits (fun _ member => by cases member) (fun _ found => by cases found) (fun _ =>
    rfl) (fun _ found => by cases found)
    fun _ => trivial

/-- The process that moves fits its new place, and the others still fit theirs. -/
theorem fits_goto {pc : Pc} (own : s.Fits t pc) (others : ∀ u, u ≠ t → s.Fits u (s.pc u)) (u : τ) :
    (s.goto t pc).Fits u ((s.goto t pc).pc u) := by
  rw [goto_pc]
  split
  · subst u
    exact own
  · exact others u ‹_›

/-- A process goes on to another place, and the set, the handles and the rest stay. -/
theorem goto (counted : s.Counted) {pc : Pc} (fits : s.Fits t pc) : (s.goto t pc).Counted :=
  of_fits counted.old counted.counter counted.unused counted.adjusted
    (fits_goto fits fun u _ => counted.fits u)

/-- A change of the set that leaves the counter alone. -/
theorem replace (counted : s.Counted) {set : SemSet Member τ} (here : s.set = some set)
    (set' : SemSet Member τ)
    (same : set'.semval .counter = set.semval .counter)
    (adjusted : ∀ t, set'.semadj t .counter = set.semadj t .counter) :
    State.Counted { s with set := some set' } where
  old := counted.old
  counter other found := by
    cases found
    rw [same]
    exact counted.counter set here
  unused := counted.unused
  adjusted other found t := by
    cases found
    rw [adjusted]
    exact counted.adjusted set here t
  setting := counted.setting
  ready := counted.ready
  closing := counted.closing

/-- A handle is counted. -/
theorem more (counted : s.Counted) {set set' : SemSet Member τ} (here : s.set = some set)
    (ready : s.initialised = true)
    (less : set'.semval .counter = set.semval .counter - 1)
    (adjusted : ∀ u, set'.semadj u .counter = set.semadj u .counter + if u = t then 1 else 0) :
    State.Counted { s with set := some set', handles := (t, s.semid) :: s.handles } := by
  refine of_fits ?_ ?_ (fun unready => by simp [ready] at unready) ?_ fun u =>
    (counted.fits u).mono rfl fun _ => List.mem_cons_of_mem _
  · intro handle member
    obtain rfl | member := List.mem_cons.mp member
    · exact Nat.le_refl _
    · exact counted.old handle member
  · rintro other ⟨⟩
    rw [less, counted.counter set here]
    simp only [ready, if_true, openHandles, openOf_cons]
    omega
  · rintro other ⟨⟩ u
    rw [adjusted, counted.adjusted set here, List.count_cons]
    -- the adjustment grows with the number of handles of its process
    by_cases own : u = t
    · simp [own]
    · simp [own, Ne.symm own]

/-- Who has a handle has one of a set that is ready. -/
theorem ready_of_handle (counted : s.Counted) (own : (t, s.semid) ∈ s.handles) :
    s.initialised = true := by
  by_contra unready
  have none : openOf s.handles s.semid = 0 := counted.unused (by simpa using unready)
  exact Nat.lt_irrefl 0 (none ▸ openOf_pos own)

/-- A handle is no longer counted. -/
theorem fewer (counted : s.Counted) {set set' : SemSet Member τ} (here : s.set = some set)
    (own : (t, s.semid) ∈ s.handles)
    (more : set'.semval .counter = set.semval .counter + 1)
    (adjusted : ∀ u, set'.semadj u .counter = set.semadj u .counter - if u = t then 1 else 0) :
    (State.goto { s with set := some set', handles := s.handles.erase (t, s.semid) } t
    (.closeCounter s.semid)).Counted := by
  have ready := counted.ready_of_handle own
  refine of_fits (fun handle member => counted.old handle (List.mem_of_mem_erase member)) ?_
    (fun unready => ?_) ?_
    (fits_goto trivial fun u other => (counted.fits u).mono rfl fun id =>
      (List.mem_erase_of_ne ?_).mpr)
  · rintro other ⟨⟩
    have positive := openOf_pos own
    simp only [State.goto, openHandles, ready, if_true, more, counted.counter set here,
      openOf_erase own]
    omega
  · exact absurd ready (by simpa [State.goto] using unready)
  · rintro other ⟨⟩ u
    have positive : 0 < s.handles.count (t, s.semid) := List.count_pos_iff.mpr own
    rw [adjusted, counted.adjusted set here]
    simp only [State.goto]
    by_cases same : u = t
    · subst same
      rw [List.count_erase_self, if_pos rfl]
      omega
    · rw [List.count_erase_of_ne (by simp [same]), if_neg same, Int.sub_zero]
  · simp [other]

/-- The counter gets its first value. -/
theorem initialise (counted : s.Counted) (locked : s.Locked (some t)) {set : SemSet Member τ}
    (unready : s.initialised = false)
    (id : Nat) : (State.goto
    { s with set := some (set.setval .counter bigcount), initialised := true } t
      (.endCreate id)).Counted := by
  have none : openOf s.handles s.semid = 0 := counted.unused unready
  refine of_fits counted.old ?_ (fun ready => by cases ready) ?_ (fits_goto rfl fun u other => ?_)
  · rintro other ⟨⟩
    simp only [SemSet.setval_semval, if_true, State.goto, openHandles, none]
    rfl
  · rintro other ⟨⟩ u
    have few := count_le_openOf s.handles u s.semid
    simp only [SemSet.setval_semadj, if_true, State.goto]
    omega
  · -- the others are outside the lock
    exact .of_outside (locked.outside (by simpa using other.symm)) (counted.closing u)

/-- There was no set. -/
theorem create (counted : s.Counted) (locked : s.Locked none) {initval : Int} :
    (State.goto { s with set := some .zero, semid := s.semid + 1, initialised := false } t
      (.lock initval (s.semid + 1))).Counted := by
  refine of_fits (fun handle member => Nat.le_succ_of_le (counted.old handle member)) ?_
    (fun _ => ?_) ?_
    (fits_goto trivial fun u _ => .of_outside (locked.outside (by simp)) (counted.closing u))
  · rintro other ⟨⟩
    rfl
  · -- all handles are of older sets
    refine openOf_eq_zero.mpr fun handle member => ?_
    have older := counted.old handle member
    simp only [State.goto]
    omega
  · rintro other ⟨⟩ u
    have none : s.handles.count (u, s.semid + 1) = 0 := by
      refine List.count_eq_zero.mpr fun member => ?_
      have older := counted.old _ member
      simp only at older
      omega
    simp [State.goto, SemSet.zero, none]

/-- The kernel takes the handles of a process back when it exits. -/
theorem exit (counted : s.Counted) (few : s.openHandles < 10000) (t : τ) :
    (State.goto { s with
      set := s.set.map fun set => set.exit t, handles :=
        s.handles.filter fun handle => handle.1 ≠ t } t .exited).Counted := by
  have split := openOf_filter s.handles t s.semid
  refine of_fits (fun handle member => counted.old handle (List.mem_filter.mp member).1) ?_
    (fun unready => ?_) ?_
    (fits_goto trivial fun u other => (counted.fits u).mono rfl fun id member => ?_)
  · intro set' found
    obtain ⟨set, here, rfl⟩ := Option.map_eq_some_iff.mp found
    have value := counted.counter set here
    have adjusted := counted.adjusted set here t
    simp only [openHandles] at few value
    -- the counter comes up by the handles of the process, and stays below `BIGCOUNT`
    by_cases ready : s.initialised = true
    · rw [if_pos ready, bigcount] at value
      rw [SemSet.exit_semval_of_range (by omega) (by rw [semvmx]; omega), value, adjusted]
      simp only [State.goto, openHandles, bigcount, ready, if_true]
      omega
    · have unready : s.initialised = false := by simpa using ready
      have none : openOf s.handles s.semid = 0 := counted.unused unready
      rw [if_neg ready] at value
      rw [SemSet.exit_semval_of_range (by omega) (by rw [semvmx]; omega), value, adjusted]
      simp only [State.goto, unready, Bool.false_eq_true, if_false]
      omega
  · have none : openOf s.handles s.semid = 0 := counted.unused unready
    simp only [openHandles, State.goto]
    omega
  · intro set' found u
    obtain ⟨set, here, rfl⟩ := Option.map_eq_some_iff.mp found
    rw [SemSet.exit_semadj, counted.adjusted set here]
    simp only [State.goto]
    by_cases own : u = t
    · subst own
      rw [if_pos rfl, List.count_eq_zero.mpr
        fun member => by simpa using (List.mem_filter.mp member).2]
      rfl
    · rw [if_neg own, List.count_filter (by simp [own])]
  · exact List.mem_filter.mpr ⟨member, by simpa using other⟩

theorem moves (counted : s.Counted) (locked : s.Locked holder) (few : s.openHandles < 10000)
    (moves : s.Moves t s') :
    s'.Counted := by
  cases moves with
  | sleeps id at_ found =>
    exact ⟨counted.old, counted.counter, counted.unused, counted.adjusted, counted.setting,
      counted.ready, counted.closing⟩
  | fails failure why => exact counted.goto trivial
  | goes pc outside before plain =>
    exact counted.goto (.of_outside outside fun id same => absurd same (plain.1 id))
  | created initval at_ absent => exact counted.create (locked.present absent ▸ locked)
  | locked initval id set at_ found free =>
    exact (counted.replace (find_eq_some found).2
      (set.add t ⟨.lock, 1, true⟩) (by simp [SemSet.add_semval])
      (by simp [SemSet.add_semadj])).goto trivial
  | unset initval id set at_ found zero =>
    refine counted.goto (?_ : s.initialised = false)
    by_contra ready
    -- with fewer than `BIGCOUNT` handles the counter of a set that is ready is not 0
    have value := counted.counter set (find_eq_some found).2
    rw [zero, if_pos (by simpa using ready), bigcount] at value
    omega
  | isSet initval id set at_ found nonzero =>
    refine counted.goto (?_ : s.initialised = true)
    by_contra unready
    exact nonzero ((counted.counter set (find_eq_some found).2).trans (if_neg unready))
  | setsValue initval id set at_ found =>
    have unready := counted.setting t id initval (.inl at_)
    exact (counted.replace (find_eq_some found).2 (set.setval .value initval) (by simp)
      (by simp)).goto unready
  | setsCounter id set at_ found =>
    obtain ⟨rfl, -⟩ := locked.holds (show (s.pc t).inside = some id by rw [at_]; rfl)
    exact counted.initialise locked (counted.setting t id 0 (.inr at_)) id
  | creates id set at_ found =>
    obtain ⟨rfl, here⟩ := find_eq_some found
    refine (counted.more here (counted.ready t _ (.inl at_)) ?_ fun u => ?_).goto trivial
    · simp [SemSet.add_semval, Int.sub_eq_add_neg]
    · simp only [SemSet.add_semadj, reduceCtorEq, and_false, if_false, and_true, true_and]
      split_ifs <;> simp
  -- a counter that is not 0 has been set
  | opens id set at_ found enough =>
    obtain ⟨rfl, here⟩ := find_eq_some found
    have ready : s.initialised = true := by
      by_contra unready
      rw [counted.counter set here, if_neg unready] at enough
      omega
    refine (counted.more here ready ?_ fun u => ?_).goto trivial
    · simp [SemSet.add_semval, Int.sub_eq_add_neg]
    · simp only [SemSet.add_semadj, and_true, true_and]
      split_ifs <;> simp
  | operates id set value at_ found =>
    exact (counted.replace (find_eq_some found).2
      (set.add t ⟨.value, value, true⟩) (by simp [SemSet.add_semval])
      (by simp [SemSet.add_semadj])).goto trivial
  | closes id set at_ found free =>
    obtain ⟨rfl, here⟩ := find_eq_some found
    refine counted.fewer here (counted.closing t _ at_) ?_ fun u => ?_
    · simp [SemSet.add_semval]
    · simp only [SemSet.add_semadj, reduceCtorEq, and_false, if_false, and_true, true_and]
      split_ifs <;> simp
  | last id set at_ found full =>
    refine counted.goto (?_ : s.initialised = true)
    by_contra unready
    have value := counted.counter set (find_eq_some found).2
    rw [full, if_neg unready] at value
    cases value
  | others id at_ => exact counted.goto trivial
  | removes id at_ found =>
    have gone : State.Counted { s with set := none } :=
      ⟨counted.old, fun _ found => (by cases found), counted.unused,
        fun _ found => (by cases found), counted.setting,
        counted.ready, counted.closing⟩
    exact gone.goto trivial
  | unlocks id set at_ found =>
    exact (counted.replace (find_eq_some found).2
      (set.add t ⟨.lock, -1, true⟩) (by simp [SemSet.add_semval])
      (by simp [SemSet.add_semadj])).goto trivial

theorem step (counted : s.Counted) (locked : s.Locked holder) (few : s.openHandles < 10000)
    {action : Action τ}
    (steps : s.step action = some s') : s'.Counted := by
  obtain ⟨t, -, moves⟩ | ⟨t, pc, outside, -, own, -, rfl⟩ | ⟨t, -, rfl⟩ := step_cases steps
  · exact counted.moves locked few moves
  · exact counted.goto (.of_outside outside own)
  · exact counted.exit few t

end State.Counted

/-- Fewer than `BIGCOUNT` handles are open at any time in the run. -/
def Few (actions : List (Action τ)) : Prop :=
  ∀ s, Visits State.step .start actions s → s.openHandles < bigcount

theorem run_counted {actions : List (Action τ)} (few : Few actions)
    (visits : Visits State.step .start actions s) :
    ∃ holder, s.Locked holder ∧ s.Counted := by
  have start : ∃ holder, (State.start : State τ).Locked holder ∧ (State.start : State τ).Counted :=
    ⟨none, .start, .start⟩
  refine visits.invariant (fun s => ∃ holder, s.Locked holder ∧
    s.Counted) (fun s _ => s.openHandles < bigcount) start
    (fun s action s' both allowed steps => ?_) (fun s₁ action takes => few s₁ takes.visits)
  obtain ⟨holder, locked, counted⟩ := both
  obtain ⟨holder', locked'⟩ := locked.step steps
  exact ⟨holder', locked',
    counted.step locked (by simpa [bigcount] using Int.ofNat_lt.mp allowed) steps⟩

/-! ## Accounting -/

/-- With fewer than `BIGCOUNT` handles the lock is 0 or 1 and one process at most is inside, the
counter tells how many handles are open, and the value is set only while there are none. -/
theorem set_accounting (actions : List (Action τ)) (few : Few actions) (s : State τ)
    (runs : execute State.step .start actions = some s) (set : SemSet Member τ)
    (here : s.set = some set) :
    (set.semval .lock = 0 ∨ set.semval .lock = 1) ∧
      (∀ t u, (s.pc t).inside ≠ none → (s.pc u).inside ≠ none → t = u) ∧
      (s.initialised = true → set.semval .counter = bigcount - s.openHandles) ∧
      ∀ t initval id, s.pc t = .setValue initval id → id = s.semid ∧
        ∀ u, (u, s.semid) ∉ s.handles := by
  obtain ⟨holder, locked, counted⟩ := run_counted few (.finish runs)
  refine ⟨?_, fun t u insideT insideU => ?_, fun ready => ?_, fun t initval id at_ => ?_⟩
  · rw [locked.lock set here]
    split
    · exact .inl rfl
    · exact .inr rfl
  · exact Option.some.inj ((locked.inside_iff.mp insideT).symm.trans (locked.inside_iff.mp insideU))
  · rw [counted.counter set here, if_pos ready]
  · have unused := counted.unused (counted.setting t id initval (.inl at_))
    refine ⟨(locked.holds (show (s.pc t).inside = some id by rw [at_]; rfl)).2, fun u member => ?_⟩
    exact openOf_eq_zero.mp unused _ member rfl

/-! ## Opening while others close -/

/-- A `sem_open` takes from the counter between the last look of a `sem_close` at it and the
`IPC_RMID`. -/
def OpensInGap (s : State τ) (action : Action τ) : Prop :=
  ∃ t u id, action = .run u ∧ s.pc u = .openCount id ∧ s.pc t = .remove id

/-- The set is removed and another process has a handle of it. -/
def RemovesInUse (s : State τ) (action : Action τ) : Prop :=
  ∃ t id u, action = .run t ∧ s.pc t = .remove id ∧ s.find id ≠ none ∧ u ≠ t ∧ (u, id) ∈ s.handles

/-- Who is about to remove the set has looked, and no handle has been added since. -/
def State.Unused (s : State τ) : Prop := ∀ t id, s.pc t = .remove id → s.openHandles = 0

namespace State.Unused

/-- A process goes on to another place than the `IPC_RMID`, and no handle is added while somebody is
there. -/
theorem goto (unused : s.Unused) (mid : State τ) (pcs : mid.pc = s.pc) {pc : Pc}
    (other : ∀ id, pc ≠ .remove id)
    (none : ∀ u id, u ≠ t → s.pc u = .remove id → s.openHandles = 0 → mid.openHandles = 0) :
    (mid.goto t pc).Unused := by
  intro u id at_
  rw [goto_pc] at at_
  split at at_
  · exact absurd at_ (other id)
  · rename_i differ
    rw [pcs] at at_
    exact none u id differ at_ (unused u id at_)

theorem goto_same (unused : s.Unused) {pc : Pc} (other : ∀ id, pc ≠ .remove id) :
    (s.goto t pc).Unused :=
  unused.goto s rfl other fun _ _ _ _ => id

/-- A change of the set, the handles being the same. -/
theorem goto_set (unused : s.Unused) (set : Option (SemSet Member τ)) (initialised : Bool) {pc : Pc}
    (other : ∀ id, pc ≠ .remove id) :
    (State.goto { s with set := set, initialised := initialised } t pc).Unused :=
  unused.goto { s with set := set, initialised := initialised } rfl other fun _ _ _ _ => id

theorem moves (unused : s.Unused) (locked : s.Locked holder) (counted : s.Counted)
    (allowed : ¬OpensInGap s (.run t))
    (moves : s.Moves t s') : s'.Unused := by
  cases moves with
  | sleeps id at_ found => exact unused
  | fails failure why => exact unused.goto_same (by simp)
  | goes pc outside before plain =>
    refine unused.goto_same fun id same => ?_
    subst same
    cases outside
  | created initval at_ absent =>
    refine unused.goto { s with set := some .zero, semid := s.semid + 1, initialised := false }
      rfl (by simp)
      fun u id _ at' _ => ?_
    exact absurd absent
      (locked.exists_set (locked.holds (show (s.pc u).inside = some id by rw [at']; rfl)).1)
  | locked initval id set at_ found free => exact unused.goto_set _ _ (by simp)
  | unset initval id set at_ found zero => exact unused.goto_same (by simp)
  | isSet initval id set at_ found nonzero => exact unused.goto_same (by simp)
  | setsValue initval id set at_ found => exact unused.goto_set _ _ (by simp)
  | setsCounter id set at_ found => exact unused.goto_set _ _ (by simp)
  | creates id set at_ found =>
    refine unused.goto { s with
      set := some ((set.add t ⟨.counter, -1, true⟩).add t ⟨.lock, -1, true⟩), handles :=
        (t, id) :: s.handles } rfl (by simp)
      fun u other differ at' _ => absurd ?_ differ
    -- the lock is in its way
    have insideT := (locked.holds (show (s.pc t).inside = some id by rw [at_]; rfl)).1
    have insideU := (locked.holds (show (s.pc u).inside = some other by rw [at']; rfl)).1
    exact Option.some.inj (insideU.symm.trans insideT)
  | opens id set at_ found enough =>
    refine unused.goto { s with set := some (set.add t ⟨.counter, -1, true⟩), handles := (t, id) :: s.handles } rfl (by simp)
      fun u other _ at' _ => absurd ⟨u, t, id, rfl, at_, ?_⟩ allowed
    obtain ⟨-, rfl⟩ := locked.holds (show (s.pc u).inside = some other by rw [at']; rfl)
    obtain ⟨rfl, -⟩ := find_eq_some found
    exact at'
  | operates id set value at_ found => exact unused.goto_set _ _ (by simp)
  | closes id set at_ found free =>
    refine unused.goto { s with
      set := some ((set.add t ⟨.lock, 1, true⟩).add t ⟨.counter, 1, true⟩), handles :=
        s.handles.erase (t, id) } rfl (by simp)
      fun _ _ _ _ none => ?_
    exact openOf_eq_zero.mpr fun handle member => openOf_eq_zero.mp none handle
      (List.mem_of_mem_erase member)
  | last id set at_ found full =>
    intro u other at'
    have value := counted.counter set (find_eq_some found).2
    change s.openHandles = 0
    rw [full, bigcount] at value
    split at value <;> omega
  | others id at_ => exact unused.goto_same (by simp)
  | removes id at_ found => exact unused.goto_set none s.initialised (by simp)
  | unlocks id set at_ found => exact unused.goto_set _ _ (by simp)

theorem step (unused : s.Unused) (locked : s.Locked holder) (counted : s.Counted)
    {action : Action τ}
    (allowed : ¬OpensInGap s action) (steps : s.step action = some s') : s'.Unused := by
  obtain ⟨t, rfl, moves⟩ | ⟨t, pc, outside, -, -, -, rfl⟩ | ⟨t, -, rfl⟩ := step_cases steps
  · exact unused.moves locked counted allowed moves
  · refine unused.goto_same fun id same => ?_
    subst same
    cases outside
  · refine unused.goto { s with
      set := s.set.map fun set => set.exit t, handles :=
        s.handles.filter fun handle => handle.1 ≠ t } rfl (by simp)
      fun _ _ _ _ none => ?_
    exact openOf_eq_zero.mpr fun handle member => openOf_eq_zero.mp none handle
      (List.mem_filter.mp member).1

end State.Unused

/-- A `sem_open` in the gap gets its handle, and the removal follows. -/
theorem opened_then_removed (locked : s.Locked holder) (counted : s.Counted)
    (few : s.openHandles < bigcount)
    {action : Action τ} (opens : OpensInGap s action) :
    ∃ s₁ action', s.step action = some s₁ ∧ RemovesInUse s₁ action' := by
  obtain ⟨t, u, id, rfl, at_, at'⟩ := opens
  obtain ⟨held, rfl⟩ := locked.holds (show (s.pc t).inside = some id by rw [at']; rfl)
  obtain ⟨set, present⟩ := Option.ne_none_iff_exists'.mp (locked.exists_set held)
  have value := counted.counter set present
  have adjusted := counted.adjusted set present u
  have own := count_le_openOf s.handles u s.semid
  rw [if_pos (counted.ready t _ (.inr at'))] at value
  simp only [State.openHandles, bigcount] at value few
  -- neither the counter nor the adjustment runs out
  have performs : set.semop u opOpen = .done (set.add u ⟨.counter, -1, true⟩) := by
    simp only [opOpen, SemSet.semop, SemSet.perform]
    rw [if_neg (by decide), if_neg (by omega), if_neg (by rw [semvmx]; omega), if_neg]
    rw [semaem, adjusted]
    omega
  have differ : t ≠ u := by
    rintro rfl
    simp [at_] at at'
  refine ⟨State.goto { s with
    set := some (set.add u ⟨.counter, -1, true⟩), handles := (u, s.semid) :: s.handles } u .idle,
      .run t, ?_, t, s.semid, u,
    rfl, ?_, ?_, differ.symm, List.mem_cons_self⟩
  · simp [State.step, State.run, at_, State.semop, State.find, present, performs]
  · rw [State.goto_pc, if_neg differ]
    exact at'
  · simp [State.find, State.goto]

/-- In a run in which no `sem_open` comes between the last look of a `sem_close` at the counter and
its removal of the set, no set is removed while another process has a handle of it; a `sem_open`
that does come in between leads there. -/
theorem removed_unused (actions : List (Action τ)) (few : Few actions) :
    ((∀ s action, Takes State.step .start actions s action → ¬OpensInGap s action) →
      ∀ s action, Takes State.step .start actions s action → ¬RemovesInUse s action) ∧
      ∀ s, Visits State.step .start actions s → ∀ action, OpensInGap s action →
        ∃ s₁ action', s.step action = some s₁ ∧ RemovesInUse s₁ action' := by
  constructor
  · rintro meets s action takes ⟨t, id, u, -, at_, found, -, member⟩
    have start : (∃ holder, (State.start : State τ).Locked holder ∧
        (State.start : State τ).Counted) ∧
        (State.start : State τ).Unused := ⟨⟨none, .start, .start⟩, fun _ _ at_ => (by cases at_)⟩
    have both := takes.visits.invariant (fun s => (∃ holder, s.Locked holder ∧
      s.Counted) ∧ s.Unused)
      (fun s action => ¬OpensInGap s action ∧ s.openHandles < bigcount) start
      (fun s action s' both allowed steps => ?_) (fun s₁ action takes =>
        ⟨meets s₁ action takes, few s₁ takes.visits⟩)
    · have none := both.2 t id at_
      obtain ⟨rfl, -⟩ := State.find_ne_none found
      exact openOf_eq_zero.mp none _ member rfl
    · obtain ⟨⟨holder, locked, counted⟩, unused⟩ := both
      obtain ⟨holder', locked'⟩ := locked.step steps
      have bound : s.openHandles < 10000 := by simpa [bigcount] using Int.ofNat_lt.mp allowed.2
      exact ⟨⟨holder', locked', counted.step locked bound steps⟩,
        unused.step locked counted allowed.1 steps⟩
  · intro s visits action opens
    obtain ⟨holder, locked, counted⟩ := run_counted few visits
    exact opened_then_removed locked counted (few s visits) opens

section Runs

variable {actions : List (Action Two)} {s : State Two}

theorem few_of_runs (runs : execute State.step .start actions = some s)
    (last : s.openHandles < 10000)
    (before : allTaken State.step (fun s _ => s.openHandles < 10000) .start actions = true) :
    Few actions := by
  intro s' visits
  have bound : s'.openHandles < 10000 := by
    obtain finish | ⟨action, takes⟩ := visits.finish_or_takes
    · obtain rfl := Option.some.inj (runs.symm.trans finish)
      exact last
    · simpa using takes.of_allTaken before
  exact Int.ofNat_lt.mpr bound

/-- One process has created the semaphore and dies while it closes it, with the lock; the other one
creates it after that. -/
def dying : List (Action Two) :=
  creating true ++ [.call true (.op 1 (-1)), .run true, .call true (.close 1), .run true,
    .exit true] ++
    .call false (.create 1) :: List.replicate 4 (.run false)

theorem set_accounting_dying :
    ∃ s set, execute State.step .start dying = some s ∧ s.set = some set ∧
    s.handles = [(false, 1)] ∧ set.semval .counter = bigcount - s.openHandles := by
  have evaluates : (execute State.step .start dying).map
      (fun s => (s.handles, s.initialised, s.set.isSome, s.semid)) =
      some ([(false, 1)], true, true, 1) := by decide
  obtain ⟨s, runs, final⟩ := Option.map_eq_some_iff.mp evaluates
  simp only [Prod.mk.injEq] at final
  obtain ⟨handles, ready, present, semid⟩ := final
  obtain ⟨set, here⟩ := Option.isSome_iff_exists.mp present
  have few : Few dying :=
    few_of_runs runs (by rw [State.openHandles, handles, semid]; decide) (by decide)
  exact ⟨s, set, runs, here, handles, (set_accounting dying few s runs set here).2.2.1 ready⟩

/-- The last user closes the semaphore, which removes it, and another process creates it again. -/
def closing : List (Action Two) :=
  creating true ++ [.call true (.close 1), .run true, .run true, .run true] ++ creating false

theorem removed_unused_closing :
    ∃ s, Takes State.step .start closing s (.run true) ∧ s.pc true = .remove 1 ∧
    ¬RemovesInUse s (.run true) := by
  have evaluates : (execute State.step .start closing).map (fun s => s.openHandles) = some 1 := by
    decide
  obtain ⟨s', runs, final⟩ := Option.map_eq_some_iff.mp evaluates
  have few : Few closing := few_of_runs runs (by omega) (by decide)
  have removing : ((execute State.step .start (closing.take 10)).map fun s => s.pc true) =
    some (.remove 1) := by decide
  obtain ⟨s, reaches, removes⟩ := Option.map_eq_some_iff.mp removing
  have takes : Takes State.step .start closing s (.run true) :=
    ⟨closing.take 10, closing.drop 11, by decide, reaches⟩
  refine ⟨s, takes, removes,
    (removed_unused closing few).1 (fun s action takes opens => ?_) s _ takes⟩
  have alone : allTaken State.step
      (fun s action => (action ≠ .run false || (s.pc true).inside.isNone) &&
      (action ≠ .run true || (s.pc false).inside.isNone)) .start closing = true := by decide
  have outside := takes.of_allTaken alone
  obtain ⟨t, u, id, rfl, at_, at'⟩ := opens
  cases t <;> cases u
  · simp [at_] at at'
  · simp [at', Pc.inside] at outside
  · simp [at', Pc.inside] at outside
  · simp [at_] at at'

/-- A process opens the semaphore after the last user has looked at the counter and before it
removes the set. -/
def openedInGap : List (Action Two) :=
  creating true ++ [.call true (.close 1), .run true, .run true, .call false .openIt, .run false,
    .run false, .run true]

theorem removes_in_use : Few openedInGap ∧
    ∃ s action, Takes State.step .start openedInGap s action ∧ RemovesInUse s action := by
  have evaluates : (execute State.step .start openedInGap).map (fun s => s.openHandles) =
    some 1 := by decide
  obtain ⟨s, runs, final⟩ := Option.map_eq_some_iff.mp evaluates
  refine ⟨few_of_runs runs (by omega) (by decide), _, .run true,
    ⟨openedInGap.dropLast, [], by decide, rfl⟩, true, 1, false, rfl,
    rfl, by decide, by decide, by decide⟩

end Runs

end Apue.Lib.Semaph
