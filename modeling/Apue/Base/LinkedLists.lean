import Apue.Base.Linked
import Mathlib.Data.List.Nodup
import Mathlib.Logic.Function.Basic

/-! # Several linked lists in one memory

The lists `ι` start at cells of their own and have no element in common.  An element is taken out of
its list by one write, to the cell before it, and put in front of a list by one write, to the cell
where the list starts; the other lists stay as they are.
-/

namespace Apue.Base

variable {ι : Type} {ptr ptr' : Nat → Option Nat} {head : ι → Nat} {lists : ι → List Nat}

structure LinkedLists (ptr : Nat → Option Nat) (head : ι → Nat) (lists : ι → List Nat) : Prop where
  linked : ∀ i, Linked ptr (head i) (lists i)
  nodup : ∀ i, (lists i).Nodup
  one : ∀ {i j x}, x ∈ lists i → x ∈ lists j → i = j
  heads : ∀ i j, head i ∉ lists j
  apart : Function.Injective head

section Members

variable [DecidableEq ι] {i j : ι} {before after : List Nat} {x y : Nat}

theorem mem_unlinked (split : lists i = before ++ x :: after)
    (member : y ∈ Function.update lists i (before ++ after) j) :
    y ∈ lists j := by
  by_cases same : j = i
  · subst same
    rw [Function.update_self] at member
    rw [split]
    exact (List.Sublist.append_left (List.sublist_cons_self x after) before).subset member
  · rwa [Function.update_of_ne same] at member

theorem mem_pushed (member : y ∈ Function.update lists i (x :: lists i) j) :
    (y = x ∧ j = i) ∨ y ∈ lists j := by
  by_cases same : j = i
  · subst same
    rw [Function.update_self] at member
    exact (List.mem_cons.1 member).imp (fun here => ⟨here, rfl⟩) id
  · rw [Function.update_of_ne same] at member
    exact .inr member

end Members

namespace LinkedLists

variable (family : LinkedLists ptr head lists) {i : ι} {before after : List Nat} {x v : Nat}
include family

theorem congr (starts : ∀ j, ptr' (head j) = ptr (head j))
    (rest : ∀ j, ∀ y ∈ lists j, ptr' y = ptr y) :
    LinkedLists ptr' head lists :=
  ⟨fun j => (family.linked j).congr (starts j) (rest j), family.nodup, family.one, family.heads,
    family.apart⟩

/-- A cell of another list is not the one before an element of this. -/
theorem lastCell_ne (split : lists i = before ++ x :: after) {j : ι} (other : j ≠ i) :
    head j ≠ lastCell (head i) before ∧ ∀ y ∈ lists j, y ≠ lastCell (head i) before := by
  obtain isHead | inBefore := lastCell_mem (head i) before
  · rw [isHead]
    exact ⟨fun same => other (family.apart same), fun y member same =>
      family.heads i j (same ▸ member)⟩
  · have inList : lastCell (head i) before ∈ lists i := by
      rw [split]
      exact List.mem_append_left _ inBefore
    exact ⟨fun same => family.heads j i (same ▸ inList), fun y member same =>
      other (family.one member (same ▸ inList))⟩

variable [DecidableEq ι]

/-- An element is taken out by giving its pointer to the cell before it. -/
theorem unlink (split : lists i = before ++ x :: after) (next : ptr x = some v) :
    LinkedLists (Function.update ptr (lastCell (head i) before) (some v)) head
      (Function.update lists i (before ++ after)) := by
  have distinct : (before ++ x :: after).Nodup := split ▸ family.nodup i
  refine ⟨fun j => ?_, fun j => ?_, fun member member' =>
    family.one (mem_unlinked split member) (mem_unlinked split member'),
    fun j k member => family.heads j k (mem_unlinked split member), family.apart⟩
  · by_cases same : j = i
    · subst same
      rw [Function.update_self]
      have linked : Linked ptr (head j) (before ++ x :: after) := split ▸ family.linked j
      refine linked.remove (List.nodup_cons.2 ⟨split ▸ family.heads j j, distinct⟩) ?_
        fun y _ different => ?_
      · rw [Function.update_self, next]
      · rw [Function.update_of_ne different]
    · rw [Function.update_of_ne same]
      obtain ⟨start, rest⟩ := family.lastCell_ne split same
      exact (family.linked j).congr (Function.update_of_ne start ..) fun y member =>
        Function.update_of_ne (rest y member) ..
  · by_cases same : j = i
    · subst same
      rw [Function.update_self]
      exact distinct.sublist (List.Sublist.append_left (List.sublist_cons_self x after) before)
    · rw [Function.update_of_ne same]
      exact family.nodup j

/-- The element that was taken out is on no list. -/
theorem unlinked (split : lists i = before ++ x :: after) (j : ι) :
    x ∉ Function.update lists i (before ++ after) j := by
  by_cases same : j = i
  · subst same
    rw [Function.update_self]
    exact (List.nodup_middle.1 (split ▸ family.nodup j)).notMem
  · rw [Function.update_of_ne same]
    intro member
    exact same (family.one member (split ▸ List.mem_append_right _ List.mem_cons_self))

/-- The cell before an element is not the element. -/
theorem lastCell_ne_self (split : lists i = before ++ x :: after) :
    lastCell (head i) before ≠ x := by
  intro same
  obtain isHead | inBefore := lastCell_mem (head i) before
  · refine family.heads i i ?_
    rw [← isHead, same, split]
    exact List.mem_append_right _ List.mem_cons_self
  · refine family.unlinked split i ?_
    rw [Function.update_self, ← same]
    exact List.mem_append_left _ inBefore

/-- An element whose pointer is that to the first of a list comes to stand in front of it. -/
theorem push (new : ∀ j, x ∉ lists j) (nonzero : x ≠ 0) (notHead : ∀ j, x ≠ head j)
    (next : ptr x = ptr (head i)) :
    LinkedLists (Function.update ptr (head i) (some x)) head
      (Function.update lists i (x :: lists i)) := by
  have elsewhere (y : Nat) (j : ι) (member : y ∈ lists j) :
      Function.update ptr (head i) (some x) y = ptr y := by
    refine Function.update_of_ne ?_ ..
    rintro rfl
    exact family.heads i j member
  refine ⟨fun j => ?_, fun j => ?_, fun {j k y} member member' => ?_, fun j k member => ?_,
    family.apart⟩
  · by_cases same : j = i
    · subst same
      rw [Function.update_self]
      refine (family.linked j).push nonzero (Function.update_self ..) ?_ fun y member =>
        elsewhere y j member
      rw [Function.update_of_ne (notHead j), next]
    · rw [Function.update_of_ne same]
      exact (family.linked j).congr
        (Function.update_of_ne (fun equal => same (family.apart equal)) ..)
        fun y member => elsewhere y j member
  · by_cases same : j = i
    · subst same
      rw [Function.update_self]
      exact List.nodup_cons.2 ⟨new j, family.nodup j⟩
    · rw [Function.update_of_ne same]
      exact family.nodup j
  · obtain ⟨rfl, rfl⟩ | old := mem_pushed member
    · obtain ⟨-, rfl⟩ | old' := mem_pushed member'
      · rfl
      · exact absurd old' (new k)
    · obtain ⟨rfl, -⟩ | old' := mem_pushed member'
      · exact absurd old (new j)
      · exact family.one old old'
  · obtain ⟨same, -⟩ | old := mem_pushed member
    · exact notHead j same.symm
    · exact family.heads j k old

end LinkedLists

end Apue.Base
