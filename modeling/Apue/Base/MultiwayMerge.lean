import Mathlib.Order.Lattice
import Mathlib.Data.List.Perm.Basic

/-! # Merging many queues

A merge of many sorted queues takes, turn after turn, the least of the values at their heads.
`leastHead` is the selection of one turn: a scan of the queues that keeps the best value so far,
starting from a bound.  `Merging` is what holds between two turns, and says at the end that the
values taken are the sorted permutation of those there were.
-/

namespace Apue.Base

/-- Taking the head of one queue takes one value from all there is. -/
theorem flatten_take_head {α : Type*} {queues : List (List α)} {j : Nat} {value : α} {rest : List α}
    (atHead : queues[j]? = some (value :: rest)) :
    (value :: (queues.set j rest).flatten).Perm queues.flatten := by
  induction queues generalizing j with
  | nil => simp at atHead
  | cons first queues inductionHypothesis =>
    cases j with
    | zero =>
      have same : first = value :: rest := by simpa using atHead
      rw [same]
      simp
    | succ j =>
      have inner := inductionHypothesis (by simpa using atHead)
      simp only [List.set_cons_succ, List.flatten_cons]
      exact List.perm_middle.symm.trans (inner.append_left first)

variable {α : Type*} [LinearOrder α]

/-! ## The selection -/

/-- The least head below the best one so far, with the number of its queue; the first queue has the
number `i`. -/
def leastHead : List (List α) → Nat → α × Option Nat → α × Option Nat
  | [], _, best => best
  | [] :: queues, i, best => leastHead queues (i + 1) best
  | (head :: _) :: queues, i, best =>
    leastHead queues (i + 1) (if head < best.1 then (head, some i) else best)

theorem leastHead_le (queues : List (List α)) (i : Nat) (best : α × Option Nat) :
    (leastHead queues i best).1 ≤ best.1 ∧ ∀ queue ∈ queues, ∀ head ∈ queue.head?,
    (leastHead queues i best).1 ≤ head := by
  induction queues generalizing i best with
  | nil => exact ⟨le_refl _, fun queue member => by cases member⟩
  | cons first queues inductionHypothesis =>
    cases first with
    | nil =>
      obtain ⟨below, least⟩ := inductionHypothesis (i + 1) best
      refine ⟨below, fun queue member head isHead => ?_⟩
      cases member with
      | head => simp at isHead
      | tail _ member => exact least queue member head isHead
    | cons value rest =>
      obtain ⟨below, least⟩ :=
        inductionHypothesis (i + 1) (if value < best.1 then (value, some i) else best)
      -- the value kept is not above the head just seen, whichever way the comparison goes
      have kept : (if value < best.1 then (value, some i) else best).1 ≤ best.1 ∧
          (if value < best.1 then (value, some i) else best).1 ≤ value := by
        split
        next smaller => exact ⟨le_of_lt smaller, le_refl _⟩
        next notSmaller => exact ⟨le_refl _, le_of_not_gt notSmaller⟩
      refine ⟨le_trans below kept.1, fun queue member head isHead => ?_⟩
      cases member with
      | head =>
        have same : value = head := by simpa using isHead
        rw [← same]
        exact le_trans below kept.2
      | tail _ member => exact least queue member head isHead

/-- The selection keeps what it started with, or ends at the head of a queue. -/
theorem leastHead_cases (queues : List (List α)) (i : Nat) (best : α × Option Nat) :
    leastHead queues i best = best ∨
      ∃ j rest, queues[j]? = some ((leastHead queues i best).1 :: rest) ∧
        (leastHead queues i best).2 = some (i + j) := by
  induction queues generalizing i best with
  | nil => exact Or.inl rfl
  | cons first queues inductionHypothesis =>
    have later : ∀ best',
        (∃ j rest, queues[j]? = some ((leastHead queues (i + 1) best').1 :: rest) ∧
        (leastHead queues (i + 1) best').2 = some (i + 1 + j)) →
        ∃ j rest, (first :: queues)[j]? = some ((leastHead queues (i + 1) best').1 :: rest) ∧
          (leastHead queues (i + 1) best').2 = some (i + j) := by
      rintro best' ⟨j, rest, atHead, number⟩
      exact ⟨j + 1, rest, by simpa using atHead, by rw [number]; congr 1; omega⟩
    cases first with
    | nil => exact (inductionHypothesis (i + 1) best).imp_right (later best)
    | cons value rest =>
      simp only [leastHead]
      split
      · obtain same | found := inductionHypothesis (i + 1) (value, some i)
        · right
          rw [same]
          exact ⟨0, rest, rfl, rfl⟩
        · exact Or.inr (later _ found)
      · exact (inductionHypothesis (i + 1) best).imp_right (later best)

/-- Where some head is below the bound, the selection ends at the head of a queue, and no head is
below it. -/
theorem leastHead_found {queues : List (List α)} {bound : α} {queue : List α} {head : α}
    (start : Option Nat)
    (member : queue ∈ queues) (isHead : head ∈ queue.head?) (below : head < bound) :
    ∃ j value rest, leastHead queues 0 (bound, start) = (value, some j) ∧
      queues[j]? = some (value :: rest) ∧
      ∀ queue' ∈ queues, ∀ head' ∈ queue'.head?, value ≤ head' := by
  have least := (leastHead_le queues 0 (bound, start)).2
  obtain same | ⟨j, rest, atHead, number⟩ := leastHead_cases queues 0 (bound, start)
  · have notAbove := least queue member head isHead
    rw [same] at notAbove
    exact absurd below (not_lt_of_ge notAbove)
  · exact ⟨j, (leastHead queues 0 (bound, start)).1, rest, Prod.ext rfl (by simpa using number),
      atHead, least⟩

/-! ## The merge -/

/-- Between two turns: the queues are sorted, and so is what was taken, which is not above anything
left. -/
structure Merging (values : List α) (queues : List (List α)) (taken : List α) : Prop where
  perm : (taken ++ queues.flatten).Perm values
  queues_sorted : ∀ queue ∈ queues, queue.Pairwise (· ≤ ·)
  taken_sorted : taken.Pairwise (· ≤ ·)
  below : ∀ value ∈ taken, ∀ left ∈ queues.flatten, value ≤ left

section Merging

variable {values taken : List α} {queues : List (List α)}

theorem Merging.start (queues_sorted : ∀ queue ∈ queues, queue.Pairwise (· ≤ ·)) :
    Merging queues.flatten queues [] where
  perm := List.Perm.refl _
  queues_sorted := queues_sorted
  taken_sorted := List.Pairwise.nil
  below := fun _ member => by cases member

/-- A value at the head of a sorted queue that is not above any head is not above anything left. -/
theorem least_of_heads {value : α} (queues_sorted : ∀ queue ∈ queues, queue.Pairwise (· ≤ ·))
    (least : ∀ queue ∈ queues, ∀ head ∈ queue.head?, value ≤ head) :
    ∀ left ∈ queues.flatten, value ≤ left := by
  intro left member
  obtain ⟨queue, inQueues, inQueue⟩ := List.mem_flatten.mp member
  have sorted := queues_sorted queue inQueues
  have heads := least queue inQueues
  cases queue with
  | nil => cases inQueue
  | cons head rest =>
    have atHead : value ≤ head := heads head rfl
    cases inQueue with
    | head => exact atHead
    | tail _ inRest => exact le_trans atHead (List.rel_of_pairwise_cons sorted inRest)

/-- One turn: the least head is taken. -/
theorem Merging.take {j : Nat} {value : α} {rest : List α} (merging : Merging values queues taken)
    (atHead : queues[j]? = some (value :: rest))
    (least : ∀ queue ∈ queues, ∀ head ∈ queue.head?, value ≤ head) :
    Merging values (queues.set j rest) (taken ++ [value]) := by
  have moved := flatten_take_head atHead
  have fromBefore : ∀ left ∈ (queues.set j rest).flatten, left ∈ queues.flatten :=
      fun left member =>
    moved.subset (List.mem_cons_of_mem _ member)
  have inQueues : value ∈ queues.flatten := moved.subset List.mem_cons_self
  have lowest := least_of_heads merging.queues_sorted least
  refine ⟨?perm, ?queues, ?taken, ?below⟩
  case perm =>
    rw [List.append_assoc, List.singleton_append]
    exact (moved.append_left taken).trans merging.perm
  case queues =>
    intro queue member
    obtain old | same := List.mem_or_eq_of_mem_set member
    · exact merging.queues_sorted queue old
    · rw [same]
      exact (merging.queues_sorted _ (List.mem_of_getElem? atHead)).of_cons
  case taken =>
    refine List.pairwise_append.mpr ⟨merging.taken_sorted, List.pairwise_singleton _ _,
      fun before member last isLast => ?_⟩
    rw [List.mem_singleton.mp isLast]
    exact merging.below before member value inQueues
  case below =>
    intro before member left inLeft
    obtain old | last := List.mem_append.mp member
    · exact merging.below before old left (fromBefore left inLeft)
    · rw [List.mem_singleton.mp last]
      exact lowest left (fromBefore left inLeft)

/-- As long as fewer values are taken than there were, some queue has a head. -/
theorem Merging.head_left (merging : Merging values queues taken)
    (more : taken.length < values.length) :
    ∃ queue ∈ queues, ∃ head ∈ queue.head?, head ∈ values := by
  have total := merging.perm.length_eq
  rw [List.length_append] at total
  have notEmpty : queues.flatten ≠ [] := by
    intro empty
    rw [empty, List.length_nil] at total
    omega
  obtain ⟨left, member⟩ := List.exists_mem_of_ne_nil _ notEmpty
  obtain ⟨queue, inQueues, inQueue⟩ := List.mem_flatten.mp member
  cases queue with
  | nil => cases inQueue
  | cons head rest =>
    have inFlat : head ∈ queues.flatten :=
      List.mem_flatten.mpr ⟨head :: rest, inQueues, List.mem_cons_self⟩
    exact ⟨head :: rest, inQueues, head, rfl, merging.perm.subset (List.mem_append_right _ inFlat)⟩

/-- The end: when as many values are taken as there were, they are those, sorted. -/
theorem Merging.finish (merging : Merging values queues taken)
    (all : taken.length = values.length) :
    taken.Pairwise (· ≤ ·) ∧ taken.Perm values := by
  have total := merging.perm.length_eq
  rw [List.length_append] at total
  have empty : queues.flatten = [] := List.length_eq_zero_iff.mp (by omega)
  have perm := merging.perm
  rw [empty, List.append_nil] at perm
  exact ⟨merging.taken_sorted, perm⟩

end Merging

end Apue.Base
