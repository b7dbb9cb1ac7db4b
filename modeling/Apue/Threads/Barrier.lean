import Apue.Base.MultiwayMerge
import Mathlib.Order.Lattice.Nat
import Mathlib.Data.Int.Order.Basic

/-! # Merging the segments that the threads have sorted

`merge` runs after the barrier, when each of the `NTHR` segments of `nums` is sorted, and merges
them into `snums`.  The numbers of segments and of values in one are parameters.  `minidx` has no
value until the inner loop first gives it one, and keeps its value from one turn to the next.  An
access outside an array, or to `minidx` without a value, gives no result.  The cursors never exceed
the length of `nums`, so they are natural numbers.
-/

namespace Apue.Threads.Barrier

open Apue.Base

/-! ## The code -/

/-- `LONG_MAX`. -/
def longMax : Int := 2 ^ 63 - 1

/-- What changes in the loops of `merge`. -/
structure Merge where
  idx : List Nat
  minidx : Option Nat
  snums : List Int
  deriving DecidableEq, Repr

section Code

variable (TNUM : Nat) (nums : List Int)

/-- The inner loop from the cursor `idx[i]` on, with `num` and `minidx`. -/
def heads : List Nat → Nat → Int × Option Nat → Option (Int × Option Nat)
  | [], _, best => some best
  | cursor :: idx, i, best =>
    -- `&&` reads `nums` only where the segment has not been used up
    if cursor < (i + 1) * TNUM then do
      let head ← nums[cursor]?
      heads idx (i + 1) (if head < best.1 then (head, some i) else best)
    else heads idx (i + 1) best

/-- One turn of the outer loop. -/
def turn (sidx : Nat) (m : Merge) : Option Merge := do
  let (_, minidx) ← heads TNUM nums m.idx 0 (longMax, m.minidx)
  let i ← minidx
  let cursor ← m.idx[i]?
  let value ← nums[cursor]?
  if sidx < m.snums.length then
    some { idx := m.idx.set i (cursor + 1), minidx := some i, snums := m.snums.set sidx value }
  else none

/-- The outer loop, with so many turns left. -/
def turns : Nat → Nat → Merge → Option Merge
  | 0, _, m => some m
  | left + 1, sidx, m => do
    let m' ← turn TNUM nums sidx m
    turns left (sidx + 1) m'

/-- `merge`: what `snums` holds at the end. -/
def merge (NTHR : Nat) (snums : List Int) : Option (List Int) := do
  let idx := (List.range NTHR).map (· * TNUM)
  let m ← turns TNUM nums (NTHR * TNUM) 0 { idx := idx, minidx := none, snums := snums }
  some m.snums

end Code

/-! ## The queues behind the cursors -/

section Queues

variable {TNUM : Nat} {nums : List Int}

/-- What the cursors have not passed yet; the first one has the number `i`. -/
def queues (TNUM : Nat) (nums : List Int) : List Nat → Nat → List (List Int)
  | [], _ => []
  | cursor :: idx, i => (nums.take ((i + 1) * TNUM)).drop cursor :: queues TNUM nums idx (i + 1)

theorem queues_getElem? (idx : List Nat) (i j : Nat) :
    (queues TNUM nums idx i)[j]? = idx[j]?.map fun cursor =>
    (nums.take ((i + j + 1) * TNUM)).drop cursor := by
  induction idx generalizing i j with
  | nil => rfl
  | cons cursor idx inductionHypothesis =>
    cases j with
    | zero => rfl
    | succ j =>
      simp only [queues, List.getElem?_cons_succ, inductionHypothesis]
      rw [show i + 1 + j = i + (j + 1) by omega]

theorem queues_set (idx : List Nat) (i j cursor : Nat) :
    queues TNUM nums (idx.set j cursor) i = (queues TNUM nums idx i).set j
      ((nums.take ((i + j + 1) * TNUM)).drop cursor) := by
  induction idx generalizing i j with
  | nil => rfl
  | cons first idx inductionHypothesis =>
    cases j with
    | zero => rfl
    | succ j =>
      simp only [queues, List.set_cons_succ, inductionHypothesis]
      rw [show i + 1 + j = i + (j + 1) by omega]

theorem queues_append (idx idx' : List Nat) (i : Nat) :
    queues TNUM nums (idx ++ idx') i = queues TNUM nums idx i ++ queues TNUM nums idx'
      (i + idx.length) := by
  induction idx generalizing i with
  | nil => rfl
  | cons first idx inductionHypothesis =>
    simp only [queues, List.cons_append, List.length_cons, inductionHypothesis]
    rw [show i + 1 + idx.length = i + (idx.length + 1) by omega]

/-- The cursors at the start: the queues are the segments. -/
theorem queues_range (n : Nat) :
    queues TNUM nums ((List.range n).map (· * TNUM)) 0 =
      (List.range n).map fun i => (nums.take ((i + 1) * TNUM)).drop (i * TNUM) := by
  induction n with
  | zero => rfl
  | succ n inductionHypothesis =>
    rw [List.range_succ, List.map_append, queues_append, inductionHypothesis, List.map_append]
    simp [queues]

theorem segments_flatten (n : Nat) :
    ((List.range n).map fun i => (nums.take ((i + 1) * TNUM)).drop (i * TNUM)).flatten =
      nums.take (n * TNUM) := by
  induction n with
  | zero => simp
  | succ n inductionHypothesis =>
    have shorter : n * TNUM ≤ (n + 1) * TNUM := Nat.mul_le_mul_right TNUM (Nat.le_succ n)
    have front : nums.take (n * TNUM) = (nums.take ((n + 1) * TNUM)).take (n * TNUM) := by
      rw [List.take_take, Nat.min_eq_left shorter]
    rw [List.range_succ, List.map_append, List.flatten_append, inductionHypothesis, front]
    simp

/-- The queue behind a cursor is empty where the segment is used up, and starts with the value there
otherwise. -/
theorem queue_eq {cursor stop : Nat} (inside : stop ≤ nums.length) :
    (nums.take stop).drop cursor =
      if cursor < stop then nums[cursor]?.toList ++ (nums.take stop).drop (cursor + 1) else [] := by
  split
  next more =>
    have bound : cursor < (nums.take stop).length := by rw [List.length_take]; omega
    rw [List.drop_eq_getElem_cons bound, List.getElem_take, List.getElem?_eq_getElem (by omega)]
    rfl
  next notMore =>
    apply List.drop_eq_nil_of_le
    rw [List.length_take]
    omega

/-- The inner loop finds the least head of the queues, and reads `nums` inside the array only. -/
theorem heads_eq (idx : List Nat) (i : Nat) (best : Int × Option Nat)
    (inside : (i + idx.length) * TNUM ≤ nums.length) :
    heads TNUM nums idx i best = some (leastHead (queues TNUM nums idx i) i best) := by
  induction idx generalizing i best with
  | nil => rfl
  | cons cursor idx inductionHypothesis =>
    rw [List.length_cons, show i + (idx.length + 1) = i + 1 + idx.length by omega] at inside
    have ownEnd : (i + 1) * TNUM ≤ nums.length :=
      Nat.le_trans (Nat.mul_le_mul_right TNUM (Nat.le_add_right (i + 1) idx.length)) inside
    simp only [heads, queues]
    rw [queue_eq ownEnd]
    split
    next more =>
      rw [List.getElem?_eq_getElem (by omega)]
      exact inductionHypothesis (i + 1) _ inside
    next => exact inductionHypothesis (i + 1) best inside

end Queues

/-! ## The loop -/

section Loop

variable {TNUM NTHR : Nat} {nums : List Int}

/-- Between two turns: `NTHR` cursors, and `snums` filled as far as the merge of the queues has
come. -/
structure Filled (NTHR TNUM : Nat) (nums : List Int) (sidx : Nat) (m : Merge)
    (taken : List Int) : Prop where
  cursors : m.idx.length = NTHR
  merging : Merging nums (queues TNUM nums m.idx 0) taken
  count : taken.length = sidx
  front : m.snums.take sidx = taken
  room : m.snums.length = nums.length

theorem merging_start (long : nums.length = NTHR * TNUM)
    (segments : ∀ i < NTHR, ((nums.take ((i + 1) * TNUM)).drop (i * TNUM)).Pairwise (· ≤ ·)) :
    Merging nums (queues TNUM nums ((List.range NTHR).map (· * TNUM)) 0) [] := by
  rw [queues_range]
  have merging : Merging ((List.range NTHR).map fun i =>
      (nums.take ((i + 1) * TNUM)).drop (i * TNUM)).flatten
      ((List.range NTHR).map fun i => (nums.take ((i + 1) * TNUM)).drop (i * TNUM)) [] := by
    apply Merging.start
    intro queue member
    obtain ⟨i, inRange, isSegment⟩ := List.mem_map.mp member
    rw [← isSegment]
    exact segments i (List.mem_range.mp inRange)
  rw [segments_flatten, ← long, List.take_length] at merging
  exact merging

theorem turn_fills {sidx : Nat} {m : Merge} {taken : List Int} (long : nums.length = NTHR * TNUM)
    (values : ∀ value ∈ nums, value < longMax) (filled : Filled NTHR TNUM nums sidx m taken)
    (more : sidx < nums.length) :
    ∃ m' value, turn TNUM nums sidx m = some m' ∧
      Filled NTHR TNUM nums (sidx + 1) m' (taken ++ [value]) := by
  obtain ⟨queue, inQueues, head, isHead, member⟩ :=
    filled.merging.head_left (by rw [filled.count]; exact more)
  obtain ⟨j, value, rest, selected, atHead, least⟩ :=
    leastHead_found m.minidx inQueues isHead (values head member)
  -- the cursor of the queue selected is at the value taken
  have behind := atHead
  rw [queues_getElem?, Nat.zero_add, Option.map_eq_some_iff] at behind
  obtain ⟨cursor, isCursor, dropped⟩ := behind
  have inRange : j < NTHR := by
    rw [← filled.cursors]
    exact (List.getElem?_eq_some_iff.mp isCursor).1
  have inside : (j + 1) * TNUM ≤ nums.length := by
    rw [long]
    exact Nat.mul_le_mul_right TNUM inRange
  rw [queue_eq inside] at dropped
  split at dropped
  next notUsedUp =>
    have bound : cursor < nums.length := by omega
    rw [List.getElem?_eq_getElem bound, Option.toList_some, List.singleton_append,
      List.cons.injEq] at dropped
    have bounded : (0 + m.idx.length) * TNUM ≤ nums.length := by
      rw [filled.cursors, Nat.zero_add, long]
    refine ⟨{ idx := m.idx.set j (cursor + 1), minidx := some j, snums := m.snums.set sidx value },
      value, ?run, ?kept⟩
    case run =>
      have isRoom : sidx < m.snums.length := by rw [filled.room]; exact more
      simp [turn, heads_eq m.idx 0 _ bounded, selected, isCursor, List.getElem?_eq_getElem bound,
        dropped.1, isRoom]
    case kept =>
      have taking := filled.merging.take atHead least
      rw [← dropped.2] at taking
      exact {
        cursors := by rw [List.length_set, filled.cursors]
        merging := by rw [queues_set, Nat.zero_add]; exact taking
        count := by rw [List.length_append, filled.count, List.length_singleton]
        front := by
          have isRoom : sidx < (m.snums.set sidx value).length := by
            rw [List.length_set, filled.room]; exact more
          rw [List.take_succ_eq_append_getElem isRoom, List.take_set_of_le (Nat.le_refl sidx),
            filled.front]
          simp
        room := by rw [List.length_set, filled.room] }
  next => cases dropped

theorem turns_fill (left : Nat) {sidx : Nat} {m : Merge} {taken : List Int}
    (long : nums.length = NTHR * TNUM)
    (values : ∀ value ∈ nums, value < longMax) (filled : Filled NTHR TNUM nums sidx m taken)
    (all : sidx + left = nums.length) :
    ∃ m' taken', turns TNUM nums left sidx m = some m' ∧
      Filled NTHR TNUM nums nums.length m' taken' := by
  induction left generalizing sidx m taken with
  | zero =>
    rw [Nat.add_zero] at all
    rw [← all]
    exact ⟨m, taken, rfl, filled⟩
  | succ left inductionHypothesis =>
    obtain ⟨m', value, turned, filled'⟩ := turn_fills long values filled (by omega)
    obtain ⟨m'', taken', run, filled''⟩ := inductionHypothesis filled' (by omega)
    refine ⟨m'', taken', ?_, filled''⟩
    simp only [turns, turned]
    exact run

/-- `merge` runs without an access outside `nums` and `snums`, and leaves the sorted permutation of
`nums` in `snums`. -/
theorem merge_sorts (long : nums.length = NTHR * TNUM)
    (segments : ∀ i < NTHR, ((nums.take ((i + 1) * TNUM)).drop (i * TNUM)).Pairwise (· ≤ ·))
    (values : ∀ value ∈ nums, value < longMax) (snums : List Int)
    (room : snums.length = nums.length) :
    ∃ sorted, merge TNUM nums NTHR snums = some sorted ∧ sorted.Pairwise (· ≤ ·) ∧
      sorted.Perm nums := by
  have start : Filled NTHR TNUM nums 0 { idx := (List.range NTHR).map (· * TNUM), minidx := none, snums := snums } [] := {
    cursors := by rw [List.length_map, List.length_range]
    merging := merging_start long segments
    count := rfl
    front := rfl
    room := room }
  obtain ⟨m, taken, run, filled⟩ :=
    turns_fill (NTHR * TNUM) long values start (by rw [Nat.zero_add, long])
  have full : taken = m.snums := by
    have front := filled.front
    rw [← filled.room, List.take_length] at front
    exact front.symm
  obtain ⟨sorted, perm⟩ := filled.merging.finish filled.count
  refine ⟨m.snums, ?_, full ▸ sorted, full ▸ perm⟩
  simp only [merge, run]
  rfl

/-- Three segments of two values. -/
theorem merge_sorts_three :
    ∃ sorted, merge 2 [4, 7, 1, 9, 1, 3] 3 [0, 0, 0, 0, 0, 0] = some sorted ∧
    sorted.Pairwise (· ≤ ·) ∧ sorted.Perm [4, 7, 1, 9, 1, 3] :=
  merge_sorts (by decide) (by decide) (by decide) [0, 0, 0, 0, 0, 0] (by decide)

end Loop

end Apue.Threads.Barrier
