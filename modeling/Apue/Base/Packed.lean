import Apue.Base.Machine
import Mathlib.Data.List.Perm.Basic

/-! # Packed arrays

The entries of a packed array lie side by side: where one leaves, the last one moves into its place.
A scan that may let the entry at hand leave finds another entry in the same place, so the entries it
still has to see change their order.
-/

namespace Apue.Base.Packed

/-! ## An entry leaves -/

section Remove

variable {ε : Type} {entries : List ε} {entry : ε} {i : Nat}

/-- The last entry takes the place of the one that leaves. -/
def remove (entries : List ε) (i : Nat) : List ε :=
  match entries.getLast? with
  | none => []
  | some last => (entries.set i last).dropLast

theorem length_remove (entries : List ε) (i : Nat) :
    (remove entries i).length = entries.length - 1 := by
  obtain rfl | ⟨front, last, rfl⟩ := List.eq_nil_or_concat' entries
  · rfl
  · simp [remove]

theorem remove_last (front : List ε) (entry : ε) :
    remove (front ++ [entry]) front.length = front := by
  simp [remove]

theorem remove_before (front rest : List ε) (entry last : ε) :
    remove (front ++ entry :: (rest ++ [last])) front.length = front ++ last :: rest := by
  have final : (front ++ entry :: (rest ++ [last])).getLast? = some last := by
    rw [← List.cons_append, ← List.append_assoc, List.getLast?_concat]
  have moved : front ++ last :: (rest ++ [last]) = (front ++ last :: rest) ++ [last] := by simp
  rw [remove, final]
  simp only [List.set_append_right front.length _ (Nat.le_refl _), Nat.sub_self, List.set_cons_zero]
  rw [moved, List.dropLast_concat]

theorem eq_middle (here : entries[i]? = some entry) :
    entries = entries.take i ++ entry :: entries.drop (i + 1) := by
  obtain ⟨bound, rfl⟩ := List.getElem?_eq_some_iff.mp here
  rw [← List.drop_eq_getElem_cons bound, List.take_append_drop]

/-- The entries before the gap stay where they are, those behind it stay in some order. -/
theorem exists_remove (here : entries[i]? = some entry) :
    ∃ back, remove entries i = entries.take i ++ back ∧ back.Perm (entries.drop (i + 1)) := by
  obtain ⟨bound, _⟩ := List.getElem?_eq_some_iff.mp here
  have split := eq_middle here
  have place : (entries.take i).length = i := by simp only [List.length_take]; omega
  -- the entry is the last one itself, or the last one takes its place
  obtain none | ⟨rest, last, behind⟩ := List.eq_nil_or_concat' (entries.drop (i + 1))
  · refine ⟨[], ?_, by rw [none]⟩
    have removed := remove_last (entries.take i) entry
    rw [place] at removed
    rw [none] at split
    rw [← split] at removed
    simp [removed]
  · refine ⟨last :: rest, ?_, by rw [behind]; exact (List.perm_append_singleton last rest).symm⟩
    have removed := remove_before (entries.take i) rest entry last
    rw [place, ← behind, ← split] at removed
    exact removed

theorem remove_perm (here : entries[i]? = some entry) :
    entries.Perm (entry :: remove entries i) := by
  obtain ⟨back, removed, others⟩ := exists_remove here
  have first : entries.Perm (entry :: (entries.take i ++ entries.drop (i + 1))) := by
    nth_rewrite 1 [eq_middle here]
    exact List.perm_middle
  rw [removed]
  exact first.trans ((others.symm.append_left _).cons _)

theorem drop_remove (here : entries[i]? = some entry) :
    ((remove entries i).drop i).Perm (entries.drop (i + 1)) := by
  obtain ⟨back, removed, others⟩ := exists_remove here
  obtain ⟨bound, _⟩ := List.getElem?_eq_some_iff.mp here
  have place : (entries.take i).length = i := by simp only [List.length_take]; omega
  rw [removed, List.drop_left' place]
  exact others

theorem head?_remove (here : entries[i]? = some entry) (later : 0 < i) :
    (remove entries i).head? = entries.head? := by
  obtain ⟨back, removed, _⟩ := exists_remove here
  cases entries with
  | nil => simp at here
  | cons first rest => cases i <;> simp_all

end Remove

/-! ## A scan -/

section Sweep

variable {σ α ρ ε τ : Type} {step : σ → α → Option σ} {visit : ρ → α} {pending : σ → List ε}
    {served : σ → List τ}
variable {serve : ε → List τ} {Inv : σ → Prop}

/-- A scan that deals with one pending entry at each visit, and may reorder the others, has dealt
with that many entries once each. -/
theorem sweep (one : ∀ s entry rest r, Inv s → pending s = entry :: rest →
    ∃ s', step s (visit r) = some s' ∧ Inv s' ∧
      (pending s').Perm rest ∧ served s' = served s ++ serve entry)
    {s : σ} (start : Inv s) {results : List ρ} (enough : results.length ≤ (pending s).length) :
    ∃ s' dealt, execute step s (results.map visit) = some s' ∧ Inv s' ∧
      dealt.length = results.length ∧
      (dealt ++ pending s').Perm (pending s) ∧ served s' = served s ++ dealt.flatMap serve := by
  induction results generalizing s with
  | nil => exact ⟨s, [], rfl, start, rfl, .rfl, by simp⟩
  | cons r results inductionHypothesis =>
    cases todo : pending s with
    | nil => simp [todo] at enough
    | cons entry rest =>
      -- the rest of the scan deals with what this visit leaves, in whatever order that is
      obtain ⟨next, steps, kept, others, deals⟩ := one s entry rest r start todo
      have left : results.length ≤ (pending next).length := by
        rw [todo] at enough
        simpa [others.length_eq] using enough
      obtain ⟨s', dealt, runs, final, many, split, all⟩ := inductionHypothesis kept left
      refine ⟨s', entry :: dealt, by simp [execute, steps, runs], final, by simp [many], (split.trans others).cons _, ?_⟩
      rw [all, deals, List.flatMap_cons, List.append_assoc]

/-- A scan with as many visits as there are entries has nothing left. -/
theorem sweep_all (one : ∀ s entry rest r, Inv s → pending s = entry :: rest →
    ∃ s', step s (visit r) = some s' ∧ Inv s' ∧
      (pending s').Perm rest ∧ served s' = served s ++ serve entry)
    {s : σ} (start : Inv s) {results : List ρ} (enough : results.length = (pending s).length) :
    ∃ s', execute step s (results.map visit) = some s' ∧ Inv s' ∧ pending s' = [] ∧
      (served s').Perm (served s ++ (pending s).flatMap serve) := by
  obtain ⟨s', dealt, runs, final, many, split, all⟩ := sweep one start (Nat.le_of_eq enough)
  have none : pending s' = [] := by
    have length := split.length_eq
    rw [List.length_append] at length
    exact List.eq_nil_of_length_eq_zero (by omega)
  rw [none, List.append_nil] at split
  exact ⟨s', runs, final, none, all ▸ (split.flatMap_right serve).append_left _⟩

end Sweep

end Apue.Base.Packed
