import Mathlib.Data.List.Nodup
import Mathlib.Logic.Function.Basic

/-! # Chains of pointers

A chain starts with a pointer and goes on with the `next` pointer of each of its elements.  The
elements are named by a list; a chain without repetitions changes in one place only when an element
is put in front or taken out.
-/

namespace Apue.Base

variable {α : Type} {next : α → Option α} {first : Option α} {xs before after : List α} {a b : α}

def Chain (next : α → Option α) : Option α → List α → Prop
  | first, [] => first = none
  | first, x :: xs => first = some x ∧ Chain next (next x) xs

theorem Chain.first_eq (chain : Chain next first xs) : first = xs.head? := by
  cases xs with
  | nil => exact chain
  | cons x xs => exact chain.1

/-- The chain splits at any of its elements. -/
theorem Chain.split (chain : Chain next first (before ++ a :: after)) :
    Chain next (next a) after := by
  induction before generalizing first with
  | nil => exact chain.2
  | cons b before inductionHypothesis => exact inductionHypothesis chain.2

/-- What follows an element is what its pointer leads to. -/
theorem Chain.next_eq (chain : Chain next first (before ++ a :: after)) : next a = after.head? :=
  chain.split.first_eq

variable [DecidableEq α]

/-- The pointer of something outside does not matter. -/
theorem Chain.update (chain : Chain next first xs) (outside : a ∉ xs) (p : Option α) :
    Chain (Function.update next a p) first xs := by
  induction xs generalizing first with
  | nil => exact chain
  | cons x xs inductionHypothesis =>
    simp only [List.mem_cons, not_or] at outside
    refine ⟨chain.1, ?_⟩
    rw [Function.update_of_ne (Ne.symm outside.1)]
    exact inductionHypothesis chain.2 outside.2

/-- Taking out the element behind `b`. -/
theorem Chain.unlink (chain : Chain next first (before ++ b :: a :: after))
    (distinct : (before ++ b :: a :: after).Nodup) :
    Chain (Function.update next b (next a)) first (before ++ b :: after) := by
  induction before generalizing first with
  | nil =>
    have rest : b ∉ a :: after := (List.nodup_cons.mp distinct).1
    refine ⟨chain.1, ?_⟩
    rw [Function.update_self]
    exact chain.2.2.update (fun there => rest (List.mem_cons_of_mem a there)) (next a)
  | cons x before inductionHypothesis =>
    obtain ⟨outside, rest⟩ := List.nodup_cons.mp distinct
    have apart : x ≠ b := fun same => outside (by simp [same])
    refine ⟨chain.1, ?_⟩
    rw [Function.update_of_ne apart]
    exact inductionHypothesis chain.2 rest

end Apue.Base
