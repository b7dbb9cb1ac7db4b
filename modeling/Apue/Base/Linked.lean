import Mathlib.Data.List.Basic

/-! # Linked lists of offsets

Pointers stand in cells, and a list starts at the cell of its head: `Linked ptr start xs` says that
the pointer at `start` leads to the first of `xs`, the pointer there to the second, and that the
last one is 0.
-/

namespace Apue.Base

def Linked (ptr : Nat → Option Nat) (start : Nat) : List Nat → Prop
  | [] => ptr start = some 0
  | x :: xs => ptr start = some x ∧ x ≠ 0 ∧ Linked ptr x xs

/-- The cell whose pointer leads past the given part of the list. -/
def lastCell (start : Nat) (xs : List Nat) : Nat := xs.getLast?.getD start

@[simp] theorem lastCell_nil (start : Nat) : lastCell start [] = start := rfl

@[simp] theorem lastCell_cons (start x : Nat) (xs : List Nat) : lastCell start (x :: xs) = lastCell x xs := by
  cases xs with
  | nil => rfl
  | cons y ys => simp [lastCell, List.getLast?_cons]

theorem lastCell_mem (start : Nat) (xs : List Nat) :
    lastCell start xs = start ∨ lastCell start xs ∈ xs := by
  cases same : xs.getLast? with
  | none => exact .inl (by simp [lastCell, same])
  | some x => exact .inr (by simpa [lastCell, same] using List.mem_of_getLast? same)

theorem lastCell_append_singleton (start x : Nat) (xs : List Nat) :
    lastCell start (xs ++ [x]) = x := by
  simp [lastCell]

variable {ptr ptr' : Nat → Option Nat} {start : Nat} {xs ys : List Nat}

theorem Linked.congr (linked : Linked ptr start xs) (first : ptr' start = ptr start)
    (rest : ∀ x ∈ xs, ptr' x = ptr x) : Linked ptr' start xs := by
  induction xs generalizing start with
  | nil => exact first.trans linked
  | cons x xs inductionHypothesis =>
    exact ⟨first.trans linked.1, linked.2.1,
      inductionHypothesis linked.2.2 (rest x List.mem_cons_self)
      fun y member => rest y (List.mem_cons_of_mem x member)⟩

/-- The list splits at any of its cells. -/
theorem linked_append : Linked ptr start (xs ++ ys) ↔
    (∀ before x after, xs = before ++ x :: after → ptr (lastCell start before) = some x ∧ x ≠ 0) ∧
      Linked ptr (lastCell start xs) ys := by
  induction xs generalizing start with
  | nil => simp
  | cons x xs inductionHypothesis =>
    rw [List.cons_append, Linked, inductionHypothesis, lastCell_cons]
    constructor
    · rintro ⟨first, nonzero, rest, last⟩
      refine ⟨fun before y after split => ?_, last⟩
      cases before with
      | nil =>
        obtain ⟨rfl, rfl⟩ : x = y ∧ xs = after := by simpa using split
        exact ⟨first, nonzero⟩
      | cons z before =>
        obtain ⟨rfl, rfl⟩ : x = z ∧ xs = before ++ y :: after := by simpa using split
        rw [lastCell_cons]
        exact rest before y after rfl
    · rintro ⟨rest, last⟩
      refine ⟨(rest [] x xs rfl).1, (rest [] x xs rfl).2, fun before y after split => ?_, last⟩
      have := rest (x :: before) y after (by simp [split])
      rwa [lastCell_cons] at this

/-- The pointer that leads to an element. -/
theorem Linked.at_cell {before after : List Nat} {x : Nat}
    (linked : Linked ptr start (before ++ x :: after)) :
    ptr (lastCell start before) = some x ∧ x ≠ 0 ∧ Linked ptr x after := (linked_append.1 linked).2

/-- The pointer at the start leads to the first element, or is 0. -/
theorem Linked.first (linked : Linked ptr start xs) : ptr start = some (xs.head?.getD 0) := by
  cases xs with
  | nil => exact linked
  | cons x xs => exact linked.1

/-- The pointer of an element leads to the next one, or is 0. -/
theorem Linked.next {before after : List Nat} {x : Nat}
    (linked : Linked ptr start (before ++ x :: after)) :
    ptr x = some (after.head?.getD 0) := linked.at_cell.2.2.first

theorem Linked.ne_zero (linked : Linked ptr start xs) {x : Nat} (member : x ∈ xs) : x ≠ 0 := by
  obtain ⟨before, after, rfl⟩ := List.append_of_mem member
  exact linked.at_cell.2.1

theorem Linked.pointed {x : Nat} (linked : Linked ptr start xs)
    (member : x ∈ xs) : ∃ cell, ptr cell = some x := by
  obtain ⟨before, after, rfl⟩ := List.append_of_mem member
  exact ⟨_, linked.at_cell.1⟩

/-- A new first element whose pointer is the old first pointer. -/
theorem Linked.push {x : Nat} (linked : Linked ptr start xs) (nonzero : x ≠ 0)
    (head : ptr' start = some x)
    (next : ptr' x = ptr start) (rest : ∀ y ∈ xs, ptr' y = ptr y) :
    Linked ptr' start (x :: xs) := by
  refine ⟨head, nonzero, ?_⟩
  cases xs with
  | nil => exact next.trans linked
  | cons y ys =>
    exact ⟨next.trans linked.1, linked.2.1, linked.2.2.congr (rest y List.mem_cons_self)
      fun z member => rest z (List.mem_cons_of_mem y member)⟩

/-- An element is taken out by giving its pointer to the cell before it. -/
theorem Linked.remove {before after : List Nat} {x : Nat}
    (linked : Linked ptr start (before ++ x :: after))
    (distinct : (start :: (before ++ x :: after)).Nodup)
    (cell : ptr' (lastCell start before) = ptr x)
    (rest : ∀ y ∈ start :: (before ++ after), y ≠ lastCell start before → ptr' y = ptr y) :
    Linked ptr' start (before ++ after) := by
  induction before generalizing start with
  | nil =>
    simp only [List.nil_append, lastCell_nil] at *
    have tail := linked.2.2
    cases after with
    | nil => exact cell.trans tail
    | cons y ys =>
      have others (z : Nat) (member : z ∈ y :: ys) : ptr' z = ptr z := by
        refine rest z (List.mem_cons_of_mem _ member) ?_
        rintro rfl
        exact (List.nodup_cons.1 distinct).1 (List.mem_cons_of_mem _ member)
      exact ⟨cell.trans tail.1, tail.2.1, tail.2.2.congr (others y List.mem_cons_self)
        fun z member => others z (List.mem_cons_of_mem y member)⟩
  | cons b before inductionHypothesis =>
    rw [lastCell_cons] at cell rest
    have inner := List.nodup_cons.1 distinct
    refine ⟨?_, linked.2.1, ?_⟩
    · rw [rest start List.mem_cons_self ?_]
      · exact linked.1
      · intro same
        refine inner.1 ?_
        rw [same]
        rcases lastCell_mem b before with here | there
        · rw [here]
          exact List.mem_cons_self
        · exact List.mem_cons_of_mem b (List.mem_append_left _ there)
    · exact inductionHypothesis linked.2.2 inner.2 cell fun y member =>
        rest y (List.mem_cons_of_mem start member)

end Apue.Base
