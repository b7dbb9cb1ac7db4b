import Mathlib.Logic.Function.Basic
import Mathlib.Tactic.SplitIfs
import Mathlib.Algebra.Order.Group.Int

/-! # System V semaphores

A set of semaphores with members in `ι`, and for every process in `τ` the adjustments that the
kernel makes when it exits.  `semop` performs its operations in order, all of them or none; one that
would make a value negative, or waits for a value of 0, blocks, and one that leaves the range of the
values or of the adjustments is an error.
-/

namespace Apue.Base

/-- The largest value of a semaphore. -/
def semvmx : Int := 32767

/-- The largest adjustment. -/
def semaem : Int := 32767

structure Sembuf (ι : Type) where
  num : ι
  op : Int
  /-- `SEM_UNDO`. -/
  undo : Bool
  deriving DecidableEq, Repr

structure SemSet (ι τ : Type) where
  semval : ι → Int
  semadj : τ → ι → Int

inductive Semop (ι τ : Type) where
  | done (set : SemSet ι τ)
  | blocks
  | range

namespace SemSet

variable {ι τ : Type}

/-- A set that has just been created. -/
def zero : SemSet ι τ := ⟨fun _ => 0, fun _ _ => 0⟩

section Members

variable [DecidableEq ι]

/-- `SETVAL`: all processes lose their adjustments of this member. -/
def setval (set : SemSet ι τ) (num : ι) (val : Int) : SemSet ι τ where
  semval := Function.update set.semval num val
  semadj t := Function.update (set.semadj t) num 0

@[simp] theorem setval_semval (set : SemSet ι τ) (num other : ι) (val : Int) :
    (set.setval num val).semval other = if other = num then val else set.semval other := by
  simp [setval, Function.update_apply]

@[simp] theorem setval_semadj (set : SemSet ι τ) (num other : ι) (val : Int) (t : τ) :
    (set.setval num val).semadj t other = if other = num then 0 else set.semadj t other := by
  simp [setval, Function.update_apply]

end Members

section Processes

variable [DecidableEq τ]

/-- The exit of a process. -/
def exit (set : SemSet ι τ) (t : τ) : SemSet ι τ where
  semval num := max 0 (min semvmx (set.semval num + set.semadj t num))
  semadj := Function.update set.semadj t fun _ => 0

@[simp] theorem exit_semval (set : SemSet ι τ) (t : τ) (num : ι) :
    (set.exit t).semval num = max 0 (min semvmx (set.semval num + set.semadj t num)) := rfl

/-- Nothing is clamped. -/
theorem exit_semval_of_range {set : SemSet ι τ} {t : τ} {num : ι}
    (lower : 0 ≤ set.semval num + set.semadj t num)
    (upper : set.semval num + set.semadj t num ≤ semvmx) :
    (set.exit t).semval num = set.semval num + set.semadj t num := by
  rw [exit_semval, min_eq_right upper, max_eq_right lower]

@[simp] theorem exit_semadj (set : SemSet ι τ) (t u : τ) (num : ι) :
    (set.exit t).semadj u num = if u = t then 0 else set.semadj u num := by
  by_cases own : u = t
  · simp [exit, own]
  · simp [exit, own]

end Processes

variable [DecidableEq ι] [DecidableEq τ] {set set' : SemSet ι τ} {t : τ} {b : Sembuf ι}

/-- The effect of one operation. -/
def add (set : SemSet ι τ) (t : τ) (b : Sembuf ι) : SemSet ι τ where
  semval := Function.update set.semval b.num (set.semval b.num + b.op)
  semadj :=
    if b.undo then Function.update set.semadj t
      (Function.update (set.semadj t) b.num (set.semadj t b.num - b.op))
    else set.semadj

def perform (set : SemSet ι τ) (t : τ) (b : Sembuf ι) : Semop ι τ :=
  if b.op = 0 then if set.semval b.num = 0 then .done set else .blocks
  else if set.semval b.num + b.op < 0 then .blocks
  else if semvmx < set.semval b.num + b.op then .range
  -- the adjustment must stay in range too
  else if b.undo = true ∧
    ¬(-semaem - 1 ≤ set.semadj t b.num - b.op ∧ set.semadj t b.num - b.op ≤ semaem) then .range
  else .done (set.add t b)

def semop (set : SemSet ι τ) (t : τ) : List (Sembuf ι) → Semop ι τ
  | [] => .done set
  | b :: sops =>
    match set.perform t b with
    | .done set' => set'.semop t sops
    | .blocks => .blocks
    | .range => .range

theorem add_semval (set : SemSet ι τ) (t : τ) (b : Sembuf ι) (num : ι) :
    (set.add t b).semval num = if num = b.num then set.semval num + b.op else set.semval num := by
  by_cases same : num = b.num
  · subst same
    simp [add]
  · simp [add, same]

theorem add_semadj (set : SemSet ι τ) (t u : τ) (b : Sembuf ι) (num : ι) :
    (set.add t b).semadj u num =
    if b.undo = true ∧ u = t ∧ num = b.num then set.semadj u num - b.op else set.semadj u num := by
  unfold add
  -- without `SEM_UNDO` no adjustment changes
  cases b.undo
  · simp
  · by_cases own : u = t
    · subst own
      by_cases same : num = b.num
      · subst same
        simp
      · simp [same]
    · simp [own]

theorem perform_done (performs : set.perform t b = .done set') :
    b.op = 0 ∧ set.semval b.num = 0 ∧ set' = set ∨ b.op ≠ 0 ∧ 0 ≤ set.semval b.num + b.op ∧
      set' = set.add t b := by
  unfold perform at performs
  split_ifs at performs with wait zero negative large range
  · cases performs
    exact .inl ⟨wait, zero, rfl⟩
  · cases performs
    exact .inr ⟨wait, by omega, rfl⟩

theorem semop_cons_done {sops : List (Sembuf ι)} :
    set.semop t (b :: sops) = .done set' ↔ ∃ mid, set.perform t b = .done mid ∧
      mid.semop t sops = .done set' := by
  rw [semop]
  cases set.perform t b <;> simp

theorem semop_nil : set.semop t [] = .done set' ↔ set' = set := by
  rw [semop, Semop.done.injEq, eq_comm]

end SemSet

end Apue.Base
