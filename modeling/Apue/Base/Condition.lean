import Mathlib.Algebra.BigOperators.Group.Finset.Piecewise
import Mathlib.Algebra.Order.BigOperators.Group.Finset
import Mathlib.Data.Fintype.BigOperators

/-! # Waiting at a condition variable

Some threads put items down, and signal each one; others take them away, and one that finds none
falls asleep until a signal wakes it.  Whether the items are there is tested under a mutex, but the
signal is sent without it.

A thread that sleeps has fallen asleep where there was no item.  From this alone no signal is lost:
as long as one thread sleeps, at least as many threads are on their way to the items, or have still
to send a signal, as there are items.
-/

namespace Apue.Base

variable {ι : Type}

inductive Role where
  | away
  /-- On its way to the items, or awake in front of them. -/
  | coming
  /-- It has put an item down, and the signal is still to be sent. -/
  | owing
  | asleep
  deriving DecidableEq, Repr

/-- The thread will look for an item, or see to it that another one does. -/
def Role.afoot (role : Role) : Prop := role = .coming ∨ role = .owing

instance (role : Role) : Decidable role.afoot := inferInstanceAs (Decidable (_ ∨ _))

/-- The threads, and the number of items. -/
structure Crowd (ι : Type) where
  role : ι → Role
  items : Nat

variable [DecidableEq ι]

/-- A signal wakes at least one of the threads that sleep, if there are any. -/
inductive Crowd.Turn : Crowd ι → Crowd ι → Prop where
  | come {c : Crowd ι} {t : ι} (away : c.role t = .away) : Turn c { c with role := Function.update c.role t .coming }
  | put {c : Crowd ι} {t : ι} (away : c.role t = .away) : Turn c ⟨Function.update c.role t .owing, c.items + 1⟩
  | take {c : Crowd ι} {t : ι} {n : Nat} (coming : c.role t = .coming) (some : c.items = n + 1) :
      Turn c ⟨Function.update c.role t .away, n⟩
  | doze {c : Crowd ι} {t : ι} (coming : c.role t = .coming) (nothing : c.items = 0) :
      Turn c { c with role := Function.update c.role t .asleep }
  | signal {c : Crowd ι} {t : ι} {woken : Finset ι} (owing : c.role t = .owing) (slept : ∀ u ∈ woken, c.role u = .asleep)
      (wakes : woken.Nonempty ∨ ∀ u, c.role u ≠ .asleep) :
      Turn c { c with role := Function.update (fun u => if u ∈
        woken then .coming else c.role u) t .away }
  | spurious {c : Crowd ι} {t : ι} (asleep : c.role t = .asleep) : Turn c { c with role := Function.update c.role t .coming }

variable [Fintype ι]

def Crowd.afoot (c : Crowd ι) : Finset ι := Finset.univ.filter fun t => (c.role t).afoot

/-- While a thread sleeps, the items are seen to. -/
def Crowd.Served (c : Crowd ι) : Prop := (∃ t, c.role t = .asleep) → c.items ≤ c.afoot.card

section

variable {c c' : Crowd ι} {t : ι}

omit [DecidableEq ι] in
@[simp] theorem Crowd.mem_afoot : t ∈ c.afoot ↔ (c.role t).afoot := by simp [afoot]

omit [DecidableEq ι] in
/-- Nothing is waiting where nobody is afoot and one sleeps. -/
theorem Crowd.Served.nothing (served : c.Served) (asleep : c.role t = .asleep)
    (nobody : ∀ u, ¬(c.role u).afoot) : c.items = 0 := by
  have none : c.afoot = ∅ := Finset.filter_eq_empty_iff.2 fun u _ => nobody u
  have few := served ⟨t, asleep⟩
  rw [none, Finset.card_empty] at few
  exact Nat.le_zero.1 few

omit [DecidableEq ι] in
/-- Whoever was afoot still is. -/
theorem Crowd.Served.more (served : c.Served) (asleep : ∃ t, c.role t = .asleep) {role : ι → Role}
    (more : ∀ u, (c.role u).afoot → (role u).afoot) :
    c.items ≤ (⟨role, c.items⟩ : Crowd ι).afoot.card := by
  refine Nat.le_trans (served asleep) (Finset.card_le_card fun u before => ?_)
  rw [Crowd.mem_afoot] at before ⊢
  exact more u before

omit [Fintype ι] in
/-- A thread that does something else than fall asleep. -/
theorem asleep_of_update {role : ι → Role} {new : Role} {s : ι} (wakeful : new ≠ .asleep)
    (asleep : Function.update role t new s = .asleep) : role s = .asleep := by
  by_cases same : s = t
  · rw [same, Function.update_self] at asleep
    exact absurd asleep wakeful
  · rwa [Function.update_of_ne same] at asleep

theorem Crowd.Served.turn (served : c.Served) (turn : c.Turn c') : c'.Served := by
  rintro ⟨s, asleep⟩
  cases turn with
  | come away =>
    refine served.more ⟨s, asleep_of_update (by decide) asleep⟩ fun u afoot => ?_
    rw [Function.update_apply]
    split
    · exact .inl rfl
    · exact afoot
  | put away =>
    rename_i t
    -- one more item, and one more thread that will signal it
    have others : t ∉ c.afoot := by simp [away, Role.afoot]
    have afoot : insert t c.afoot ⊆
        (⟨Function.update c.role t .owing, c.items + 1⟩ : Crowd ι).afoot := by
      intro u member
      rw [Crowd.mem_afoot]
      change (Function.update c.role t .owing u).afoot
      rw [Function.update_apply]
      split
      · exact .inr rfl
      · rename_i other
        exact Crowd.mem_afoot.1 (Finset.mem_of_mem_insert_of_ne member other)
    have larger := Finset.card_le_card afoot
    rw [Finset.card_insert_of_notMem others] at larger
    exact Nat.le_trans (Nat.succ_le_succ (served ⟨s, asleep_of_update (by decide) asleep⟩)) larger
  | take coming items =>
    rename_i t n
    -- one item less, and one thread less
    have afoot : c.afoot.erase t ⊆ (⟨Function.update c.role t .away, n⟩ : Crowd ι).afoot := by
      intro u member
      obtain ⟨other, there⟩ := Finset.mem_erase.1 member
      rw [Crowd.mem_afoot]
      change (Function.update c.role t .away u).afoot
      rw [Function.update_of_ne other]
      exact Crowd.mem_afoot.1 there
    have larger := Finset.card_le_card afoot
    rw [Finset.card_erase_of_mem (Crowd.mem_afoot.2 (.inl coming))] at larger
    have enough := served ⟨s, asleep_of_update (by decide) asleep⟩
    change n ≤ _
    omega
  | doze _ nothing => exact nothing.le.trans (Nat.zero_le _)
  | signal owing slept wakes =>
    rename_i t woken
    change Function.update (fun u => if u ∈ woken then Role.coming else c.role u) t .away s =
      .asleep at asleep
    have before := asleep_of_update (by decide) asleep
    have still : c.role s = .asleep := by
      split at before
      · cases before
      · exact before
    obtain ⟨w, member⟩ := wakes.resolve_right fun nobody => nobody s still
    have awake {u : ι} (afoot : (c.role u).afoot) : u ∉ woken := by
      intro sleeps
      rw [slept u sleeps] at afoot
      obtain same | same := afoot <;> cases same
    -- one that is woken stands in for the one that has signalled
    have here : t ∈ c.afoot := Crowd.mem_afoot.2 (.inr owing)
    have fresh : w ∉ c.afoot.erase t :=
      fun there => awake (Crowd.mem_afoot.1 (Finset.mem_erase.1 there).2) member
    have afoot : insert w (c.afoot.erase t) ⊆
        (⟨Function.update (fun u => if u ∈ woken then .coming else c.role u) t .away,
          c.items⟩ : Crowd ι).afoot := by
      intro u found
      rw [Crowd.mem_afoot]
      change (Function.update (fun u => if u ∈ woken then Role.coming else c.role u) t
        .away u).afoot
      obtain rfl | there := Finset.mem_insert.1 found
      · have other : u ≠ t := fun same => awake (Crowd.mem_afoot.1 here) (same ▸ member)
        rw [Function.update_of_ne other, if_pos member]
        exact .inl rfl
      · obtain ⟨other, there⟩ := Finset.mem_erase.1 there
        rw [Function.update_of_ne other, if_neg (awake (Crowd.mem_afoot.1 there))]
        exact Crowd.mem_afoot.1 there
    have larger := Finset.card_le_card afoot
    rw [Finset.card_insert_of_notMem fresh, Finset.card_erase_add_one here] at larger
    exact Nat.le_trans (served ⟨s, still⟩) larger
  | spurious slept =>
    refine served.more ⟨_, slept⟩ fun u afoot => ?_
    rw [Function.update_apply]
    split
    · exact .inl rfl
    · exact afoot

end

/-! ## What the threads have still to do -/

/-- The steps that are left to all the threads. -/
def workload (weight : ι → Nat) : Nat := ∑ t, weight t

theorem workload_update (weight : ι → Nat) (t : ι) (n : Nat) :
    workload (Function.update weight t n) + weight t = workload weight + n := by
  have whole := Finset.sum_update_of_mem (Finset.mem_univ t) weight n
  have split := Finset.sum_erase_add Finset.univ weight (Finset.mem_univ t)
  rw [Finset.sdiff_singleton_eq_erase] at whole
  simp only [workload]
  omega

omit [DecidableEq ι] in
/-- Threads that are given more to do. -/
theorem workload_le {weight weight' : ι → Nat} {n : Nat} (most : ∀ t, weight' t ≤ weight t + n) :
    workload weight' ≤ workload weight + Fintype.card ι * n := by
  calc workload weight' ≤ ∑ t, (weight t + n) := Finset.sum_le_sum fun t _ => most t
    _ = workload weight + Fintype.card ι * n := by simp [workload, Finset.sum_add_distrib]

end Apue.Base
