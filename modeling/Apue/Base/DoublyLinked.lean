import Mathlib.Data.List.Nodup
import Mathlib.Logic.Function.Basic

/-! # Doubly linked lists on a heap

A heap maps addresses to the nodes allocated there, so a freed address has no node and following a
pointer to it is a fault.  `DoublyLinked heap nodes` says what the two pointers of every node of a
list are by its place in the list: `prev` is the last node before it and `next` the first one after
it.  Stated so, both directions are symmetric, and taking a node out or adding one at an end changes
the neighbours only.
-/

namespace Apue.Base

structure Node (α : Type) where
  next : Option Nat
  prev : Option Nat
  val : α
  deriving Repr, DecidableEq

abbrev Heap (α : Type) := Nat → Option (Node α)

variable {α : Type} {heap heap' : Heap α} {nodes before after : List Nat} {a : Nat}

namespace Heap

/-- `if (p != NULL) p->field = …`; `none` when the pointer leads to no node. -/
def adjust (heap : Heap α) (p : Option Nat) (change : Node α → Node α) : Option (Heap α) :=
  match p with
  | none => some heap
  | some a => (heap a).map fun node => Function.update heap a (some (change node))

/-- The loop `for (p = head; p != NULL; p = p->next)` up to the first node that satisfies
`found`. -/
def search (heap : Heap α) (found : α → Bool) : Nat → Option Nat → Option (Option Nat)
  | 0, _ => none
  | _ + 1, none => some none
  | turns + 1, some a =>
    match heap a with
    | none => none
    | some node => if found node.val then some (some a) else heap.search found turns node.next

/-- The values of the nodes the same loop passes when it does not stop before the end. -/
def walk (heap : Heap α) : Nat → Option Nat → Option (List α)
  | 0, _ => none
  | _ + 1, none => some []
  | turns + 1, some a =>
    match heap a with
    | none => none
    | some node => (heap.walk turns node.next).map (node.val :: ·)

/-- `heap'` differs from `heap` in the pointers of some nodes only. -/
def SameValues (heap heap' : Heap α) : Prop := ∀ a, (heap' a).map Node.val = (heap a).map Node.val

end Heap

/-- The nodes of a list, from its head. -/
structure DoublyLinked (heap : Heap α) (nodes : List Nat) : Prop where
  nodup : nodes.Nodup
  linked : ∀ before a after, nodes = before ++ a :: after →
    ∃ val, heap a = some ⟨after.head?, before.getLast?, val⟩

theorem DoublyLinked.empty (heap : Heap α) : DoublyLinked heap [] :=
  ⟨List.nodup_nil, fun before a after split => by simp at split⟩

/-- Only the nodes of the list matter. -/
theorem DoublyLinked.congr (list : DoublyLinked heap nodes) (same : ∀ a ∈ nodes, heap' a = heap a) :
    DoublyLinked heap' nodes := by
  refine ⟨list.nodup, fun before a after split => ?_⟩
  rw [same a (by simp [split])]
  exact list.linked before a after split

/-- Every node of the list is allocated. -/
theorem DoublyLinked.allocated (list : DoublyLinked heap nodes) (member : a ∈ nodes) :
    ∃ node, heap a = some node := by
  obtain ⟨before, after, split⟩ := List.append_of_mem member
  obtain ⟨val, here⟩ := list.linked before a after split
  exact ⟨_, here⟩

theorem Heap.SameValues.refl (heap : Heap α) : heap.SameValues heap := fun _ => rfl

theorem Heap.SameValues.trans {heap'' : Heap α} (first : heap.SameValues heap')
    (second : heap'.SameValues heap'') :
    heap.SameValues heap'' := fun a => (second a).trans (first a)

/-- A pointer write through `adjust` that is not a fault keeps every value. -/
theorem Heap.adjust_sameValues {p : Option Nat} {change : Node α → Node α}
    (keeps : ∀ node, (change node).val = node.val)
    (writes : heap.adjust p change = some heap') : heap.SameValues heap' := by
  cases p with
  | none =>
    simp only [adjust, Option.some.injEq] at writes
    subst writes
    exact .refl heap
  | some a =>
    simp only [adjust, Option.map_eq_some_iff] at writes
    obtain ⟨node, here, rfl⟩ := writes
    intro b
    by_cases same : b = a
    · subst same
      simp [here, keeps]
    · simp [same]

theorem Heap.adjust_other {p : Option Nat} {change : Node α → Node α}
    (writes : heap.adjust p change = some heap')
    (other : a ∉ p) : heap' a = heap a := by
  cases p with
  | none =>
    simp only [adjust, Option.some.injEq] at writes
    subst writes
    rfl
  | some b =>
    simp only [adjust, Option.map_eq_some_iff] at writes
    obtain ⟨node, here, rfl⟩ := writes
    have differ : a ≠ b := fun same => other (by simp [same])
    simp [differ]

/-- Two pointer writes to different nodes can be made in either order. -/
theorem Heap.adjust_comm {p q : Option Nat} {f g : Node α → Node α} (apart : ∀ x ∈ p, x ∉ q) :
    ((heap.adjust p f).bind fun heap => heap.adjust q g) = (heap.adjust q g).bind fun heap =>
      heap.adjust p f := by
  cases p with
  | none => simp [adjust]
  | some a =>
    cases q with
    | none => simp [adjust]
    | some b =>
      have other : a ≠ b := fun same => apart a rfl (by simp [same])
      cases first : heap a with
      | none =>
        cases second : heap b with
        | none => simp [adjust, first, second]
        | some n => simp [adjust, first, second, other]
      | some m =>
        cases second : heap b with
        | none => simp [adjust, first, second, other.symm]
        | some n => simp [adjust, first, second, other, other.symm, Function.update_comm other]

/-! ## Taking a node out -/

/-- The neighbours of a node are told about each other. -/
def Heap.unlinked (heap : Heap α) (prev next : Option Nat) : Option (Heap α) :=
  (heap.adjust next fun node => { node with prev := prev }).bind fun heap =>
    heap.adjust prev fun node => { node with next := next }

/-- Where the two writes go: the node behind, the node in front, nowhere else. -/
theorem Heap.unlinked_eq (heap : Heap α) {prev next : Option Nat} (apart : ∀ x ∈ prev, x ∉ next)
    (prevThere : ∀ x ∈ prev, ∃ node, heap x = some node)
    (nextThere : ∀ x ∈ next, ∃ node, heap x = some node) :
    ∃ heap', heap.unlinked prev next = some heap' ∧
      ∀ x node, heap x = some node →
        heap' x = some ⟨if x ∈ prev then next else node.next, if x ∈ next then prev else node.prev,
          node.val⟩ := by
  cases next with
  | none =>
    cases prev with
    | none => exact ⟨heap, rfl, fun x node here => by simpa using here⟩
    | some p =>
      obtain ⟨pnode, pthere⟩ := prevThere p rfl
      refine ⟨_, by simp [unlinked, adjust, pthere]; rfl, fun x node here => ?_⟩
      by_cases same : x = p
      · subst same
        simp_all
      · have other : p ≠ x := fun h => same h.symm
        simp [same, other, here]
  | some n =>
    obtain ⟨nnode, nthere⟩ := nextThere n rfl
    cases prev with
    | none =>
      refine ⟨_, by simp [unlinked, adjust, nthere]; rfl, fun x node here => ?_⟩
      by_cases same : x = n
      · subst same
        simp_all
      · have other : n ≠ x := fun h => same h.symm
        simp [same, other, here]
    | some p =>
      obtain ⟨pnode, pthere⟩ := prevThere p rfl
      have differ : p ≠ n := fun h => apart p rfl (by simp [h])
      refine ⟨_, by simp [unlinked, adjust, nthere, pthere, differ]; rfl, fun x node here => ?_⟩
      by_cases atP : x = p
      · subst atP
        have other : n ≠ x := fun h => differ h.symm
        simp_all
      · by_cases atN : x = n
        · subst atN
          simp_all
        · have otherP : p ≠ x := fun h => atP h.symm
          have otherN : n ≠ x := fun h => atN h.symm
          simp [atP, atN, otherP, otherN, here]

/-- Where an element of a concatenation stands. -/
theorem append_split {front back : List Nat} {x : Nat}
    (split : before ++ after = front ++ x :: back) :
    (∃ middle, front = before ++ middle ∧ after = middle ++ x :: back) ∨
      ∃ middle, before = front ++ x :: middle ∧ back = middle ++ after := by
  obtain ⟨middle, first, second⟩ | ⟨middle, first, second⟩ := List.append_eq_append_iff.mp split
  · exact .inl ⟨middle, first, second⟩
  · cases middle with
    | nil => exact .inl ⟨[], by simpa using first.symm, by simpa using second.symm⟩
    | cons y middle =>
      simp only [List.cons_append, List.cons.injEq] at second
      obtain ⟨same, rest⟩ := second
      subst same
      exact .inr ⟨middle, first, rest⟩

/-- A node is taken out by the two writes through its own pointers, which it keeps. -/
theorem DoublyLinked.unlink (list : DoublyLinked heap (before ++ a :: after)) :
    ∃ middle heap', (heap.adjust after.head? fun node => { node with prev := before.getLast? }) =
      some middle ∧
      middle a = heap a ∧
      (middle.adjust before.getLast? fun node => { node with next := after.head? }) = some heap' ∧
      DoublyLinked heap' (before ++ after) ∧ heap.SameValues heap' := by
  have distinct := list.nodup
  have inBefore (x : Nat) (last : x ∈ before.getLast?) : x ∈ before := List.mem_of_getLast? last
  have inAfter (x : Nat) (first : x ∈ after.head?) : x ∈ after := List.mem_of_head? first
  have apart (x : Nat) (left : x ∈ before) (right : x ∈ a :: after) : False := by
    rw [List.nodup_append] at distinct
    exact distinct.2.2 x left x right rfl
  have tail : (a :: after).Nodup := (List.nodup_append.mp distinct).2.1
  obtain ⟨heap', writes, effect⟩ := heap.unlinked_eq
    (fun x last first => apart x (inBefore x last) (List.mem_cons_of_mem a (inAfter x first)))
    (fun x last => list.allocated (by simp [inBefore x last]))
      (fun x first => list.allocated (by simp [inAfter x first]))
  obtain ⟨middle, first, second⟩ := Option.bind_eq_some_iff.mp writes
  have early : heap.SameValues middle := Heap.adjust_sameValues (by simp) first
  have values : heap.SameValues heap' := early.trans (Heap.adjust_sameValues (by simp) second)
  have kept : middle a = heap a :=
    Heap.adjust_other first fun head => (List.nodup_cons.mp tail).1 (inAfter a head)
  have shorter : (before ++ after).Nodup := by
    refine distinct.sublist ?_
    simp
  refine ⟨middle, heap', first, kept, second, ⟨shorter, fun front x back split => ?_⟩, values⟩
  clear writes first second early values kept
  · obtain ⟨middle, front_eq, after_eq⟩ | ⟨middle, before_eq, back_eq⟩ := append_split split
    · -- `x` stands after `a`: the first of those nodes gets a new `prev`, the others keep theirs
      subst front_eq after_eq
      obtain ⟨val, here⟩ := list.linked (before ++ a :: middle) x back (by simp)
      have outside : x ∉ before.getLast? := fun last => apart x (inBefore x last) (by simp)
      rw [effect x _ here]
      cases middle with
      | nil => exact ⟨val, by simp_all⟩
      | cons m middle =>
        have other : m ≠ x := by
          intro same
          subst same
          simp at tail
        exact ⟨val, by simp_all⟩
    · -- `x` stands before `a`: the last of those nodes gets a new `next`
      subst before_eq back_eq
      obtain ⟨val, here⟩ := list.linked front x (middle ++ a :: after) (by simp)
      have outside : x ∉ after.head? :=
        fun first => apart x (by simp) (List.mem_cons_of_mem a (inAfter x first))
      rw [effect x _ here]
      cases middle with
      | nil => exact ⟨val, by simp_all⟩
      | cons m middle =>
        have inner : (x :: m :: middle).Nodup := by
          refine (List.nodup_append.mp (List.nodup_append.mp distinct).1).2.1
        have other : x ∉ (front ++ x :: m :: middle).getLast? := by
          intro last
          have ends : (front ++ x :: m :: middle).getLast? = (m :: middle).getLast? := by
            simp [List.getLast?_append, List.getLast?_cons]
          rw [ends] at last
          exact (List.nodup_cons.mp inner).1 (List.mem_of_getLast? last)
        exact ⟨val, by simp_all⟩

/-! ## Adding a node -/

/-- A node added in front: it points to the old head, whose `prev` is turned to it. -/
theorem DoublyLinked.push {val : α} (list : DoublyLinked heap nodes) (fresh : a ∉ nodes)
    (here : heap a = some ⟨nodes.head?, none, val⟩) :
    ∃ heap', (heap.adjust nodes.head? fun node => { node with prev := some a }) = some heap' ∧
      DoublyLinked heap' (a :: nodes) ∧ heap.SameValues heap' := by
  cases nodes with
  | nil =>
    refine ⟨heap, rfl, ⟨by simp, fun before x after split => ?_⟩, .refl heap⟩
    obtain ⟨rfl, rfl, rfl⟩ : before = [] ∧ x = a ∧ after = [] := by
      cases before <;> simp_all
    exact ⟨val, by simpa using here⟩
  | cons first rest =>
    obtain ⟨firstVal, there⟩ := list.linked [] first rest rfl
    have other : a ≠ first := fun same => fresh (by simp [same])
    have writes : (heap.adjust (some first) fun node => { node with prev := some a }) =
        some (Function.update heap first (some ⟨rest.head?, some a, firstVal⟩)) := by
          simp [Heap.adjust, there]
    refine ⟨_, writes, ⟨List.nodup_cons.mpr ⟨fresh, list.nodup⟩, fun before x after split => ?_⟩,
      Heap.adjust_sameValues (by simp) writes⟩
    cases before with
    | nil =>
      obtain ⟨rfl, rfl⟩ : a = x ∧ first :: rest = after := by simpa using split
      exact ⟨val, by simpa [other] using here⟩
    | cons y before =>
      simp only [List.cons_append, List.cons.injEq] at split
      obtain ⟨rfl, split⟩ := split
      obtain ⟨xVal, spot⟩ := list.linked before x after split
      cases before with
      | nil =>
        obtain ⟨rfl, rfl⟩ : first = x ∧ rest = after := by simpa using split
        exact ⟨firstVal, by simp⟩
      | cons z before =>
        have later : x ≠ first := by
          intro same
          subst same
          have distinct := list.nodup
          simp only [List.cons_append, List.cons.injEq] at split
          rw [split.2] at distinct
          simp at distinct
        exact ⟨xVal, by simpa [later, List.getLast?_cons] using spot⟩

/-- A node added at the end: it points back to the old tail, whose `next` is turned to it. -/
theorem DoublyLinked.pushBack {val : α} (list : DoublyLinked heap nodes) (fresh : a ∉ nodes)
    (here : heap a = some ⟨none, nodes.getLast?, val⟩) :
    ∃ heap', (heap.adjust nodes.getLast? fun node => { node with next := some a }) = some heap' ∧
      DoublyLinked heap' (nodes ++ [a]) ∧ heap.SameValues heap' := by
  obtain rfl | ⟨front, last, rfl⟩ := List.eq_nil_or_concat' nodes
  · refine ⟨heap, rfl, ⟨by simp, fun before x after split => ?_⟩, .refl heap⟩
    obtain ⟨rfl, rfl, rfl⟩ : before = [] ∧ x = a ∧ after = [] := by
      cases before <;> simp_all
    exact ⟨val, by simpa using here⟩
  · simp only [List.getLast?_append, List.getLast?_singleton, Option.some_or] at here ⊢
    obtain ⟨lastVal, there⟩ := list.linked front last [] rfl
    have other : a ≠ last := fun same => fresh (by simp [same])
    have writes : (heap.adjust (some last) fun node => { node with next := some a }) =
        some (Function.update heap last (some ⟨some a, front.getLast?, lastVal⟩)) := by
          simp [Heap.adjust, there]
    have distinct : (front ++ [last] ++ [a]).Nodup := by
      rw [List.nodup_append]
      exact ⟨list.nodup, by simp, by simpa using fun x member same => fresh (by simpa [same] using member)⟩
    refine ⟨_, writes, ⟨distinct, fun before x after split => ?_⟩,
      Heap.adjust_sameValues (by simp) writes⟩
    obtain ⟨middle, front_eq, after_eq⟩ | ⟨middle, before_eq, back_eq⟩ := append_split split
    · obtain ⟨rfl, rfl, rfl⟩ : middle = [] ∧ x = a ∧ after = [] := by
        cases middle <;> simp_all
      exact ⟨val, by simpa [front_eq, other] using here⟩
    · obtain ⟨xVal, spot⟩ := list.linked before x middle before_eq
      by_cases same : x = last
      · -- the old tail is met only at its own place
        subst same
        obtain ⟨rfl, rfl⟩ : middle = [] ∧ front = before := by
          obtain ⟨rest, eq, later⟩ | ⟨rest, eq, later⟩ := append_split before_eq
          · cases rest with
            | nil => simpa [eq] using later.symm
            | cons y rest => simp at later
          · have distinct := list.nodup
            rw [eq, List.append_assoc, List.nodup_append] at distinct
            simp at distinct
        exact ⟨lastVal, by simp [back_eq]⟩
      · obtain ⟨rest, rfl⟩ : ∃ rest, middle = rest ++ [last] := by
          obtain ⟨rest, eq, later⟩ | ⟨rest, eq, later⟩ := append_split before_eq
          · cases rest <;> simp_all
          · exact ⟨rest, later⟩
        refine ⟨xVal, ?_⟩
        rw [Function.update_of_ne same, spot, back_eq]
        cases rest <;> simp

/-! ## Loops over the list -/

/-- More turns do not change where a search ends. -/
theorem Heap.search_more {found : α → Bool} {turns more : Nat} {p r : Option Nat}
    (ends : heap.search found turns p = some r)
    (longer : turns ≤ more) : heap.search found more p = some r := by
  induction turns generalizing p more with
  | zero => simp [search] at ends
  | succ turns inductionHypothesis =>
    obtain ⟨more, rfl⟩ : ∃ n, more = n + 1 := ⟨more - 1, by omega⟩
    cases p with
    | none => exact ends
    | some a =>
      simp only [search] at ends ⊢
      cases here : heap a with
      | none => simp [here] at ends
      | some node =>
        simp only [here] at ends ⊢
        by_cases stop : found node.val
        · simpa [stop] using ends
        · simp only [stop] at ends ⊢
          exact inductionHypothesis ends (by omega)

/-- The loop from the first node of any rest of the list. -/
theorem DoublyLinked.search_from (list : DoublyLinked heap nodes) (before after : List Nat)
    (found : α → Bool)
    (split : nodes = before ++ after) {turns : Nat} (enough : after.length < turns) :
    heap.search found turns after.head? =
      some (after.find? fun x => (heap x).any fun node => found node.val) := by
  induction after generalizing before turns with
  | nil =>
    cases turns with
    | zero => simp at enough
    | succ turns => rfl
  | cons x after inductionHypothesis =>
    cases turns with
    | zero => simp at enough
    | succ turns =>
      obtain ⟨val, here⟩ := list.linked before x after split
      simp only [List.head?_cons, Heap.search, here, List.find?_cons, Option.any_some]
      by_cases stop : found val
      · simp [stop]
      · simp only [stop]
        exact inductionHypothesis (before ++ [x]) (by simp [split]) (by simpa using enough)

theorem DoublyLinked.walk_from (list : DoublyLinked heap nodes) (before after : List Nat)
    (split : nodes = before ++ after) {turns : Nat} (enough : after.length < turns) :
    heap.walk turns after.head? = some (after.filterMap fun x => (heap x).map Node.val) := by
  induction after generalizing before turns with
  | nil =>
    cases turns with
    | zero => simp at enough
    | succ turns => rfl
  | cons x after inductionHypothesis =>
    cases turns with
    | zero => simp at enough
    | succ turns =>
      obtain ⟨val, here⟩ := list.linked before x after split
      have rest := inductionHypothesis (before ++ [x]) (by simp [split])
        (Nat.lt_of_succ_lt_succ enough)
      simp [Heap.walk, here, rest]

/-- The nodes of a list that is pointed to by its head are those the head leads to. -/
theorem DoublyLinked.search (list : DoublyLinked heap nodes) (found : α → Bool) {turns : Nat}
    {p r : Option Nat}
    (head : p = nodes.head?) (ends : heap.search found turns p = some r) :
    r = nodes.find? fun x => (heap x).any fun node => found node.val := by
  have longer := Heap.search_more ends (Nat.le_max_left turns (nodes.length + 1))
  rw [head, list.search_from [] nodes found rfl (by omega)] at longer
  exact (Option.some.inj longer).symm

end Apue.Base
