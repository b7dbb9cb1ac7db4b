import Mathlib.Data.List.Basic

/-! # Scans and searches

A loop over a buffer goes on while a test holds (a scan), or until a text is found (a search).
Where it ends is described here without the loop: a `Span` is what a scan passes over, a `First`
where a search ends.  The two rules turn a property of every place of the loop, given by what one
turn does, into a property of the place where it ends.
-/

namespace Apue.Base

/-! ## Scans -/

/-- The test holds from `start` on and not at `stop`, which is below the limit. -/
structure Span {α : Type} (test : α → Bool) (mem : Nat → α) (limit start stop : Nat) : Prop where
  le : start ≤ stop
  inside : stop < limit
  passes : ∀ k, start ≤ k → k < stop → test (mem k) = true
  fails : test (mem stop) = false

section Span

variable {α : Type} {test : α → Bool} {mem mem' : Nat → α} {limit limit' start stop stop' : Nat}

theorem Span.eq (span : Span test mem limit start stop) (span' : Span test mem limit' start stop') :
    stop = stop' := by
  obtain less | same | more := Nat.lt_trichotomy stop stop'
  · have passes := span'.passes stop span.le less
    rw [span.fails] at passes
    cases passes
  · exact same
  · have passes := span.passes stop' span'.le more
    rw [span'.fails] at passes
    cases passes

theorem Span.exists_iff {R : Nat → Prop} (span : Span test mem limit start stop) :
    (∃ stop, Span test mem limit start stop ∧ R stop) ↔ R stop := by
  constructor
  · rintro ⟨stop', span', holds⟩
    rw [span.eq span']
    exact holds
  · intro holds
    exact ⟨stop, span, holds⟩

theorem Span.congr (same : ∀ k, start ≤ k → k < limit → mem k = mem' k)
    (span : Span test mem limit start stop) :
    Span test mem' limit start stop where
  le := span.le
  inside := span.inside
  passes k lower upper := by
    rw [← same k lower (Nat.lt_trans upper span.inside)]
    exact span.passes k lower upper
  fails := by
    rw [← same stop span.le span.inside]
    exact span.fails

/-- A scan: its place is inside the limit, and where the test holds it moves on. -/
theorem scan_iff {P R : Nat → Prop}
    (turn : ∀ k, P k ↔ k < limit ∧ if test (mem k) then P (k + 1) else R k) (start : Nat) :
    P start ↔ ∃ stop, Span test mem limit start stop ∧ R stop := by
  -- on the way that is left to the limit
  induction left : limit - start generalizing start with
  | zero =>
    constructor
    · intro holds
      have inside := ((turn start).mp holds).1
      omega
    · rintro ⟨stop, span, -⟩
      have inside := Nat.lt_of_le_of_lt span.le span.inside
      omega
  | succ left inductionHypothesis =>
    have inside : start < limit := by omega
    rw [turn start]
    cases passes : test (mem start) with
    | false =>
      have here : Span test mem limit start start :=
        ⟨Nat.le_refl _, inside, fun k lower upper => by omega, passes⟩
      rw [here.exists_iff]
      simp [inside]
    | true =>
      simp only [inside, true_and, if_true]
      rw [inductionHypothesis (start + 1) (by omega)]
      -- a span from the next place on is one from here on
      constructor
      · rintro ⟨stop, span, holds⟩
        refine ⟨stop, ⟨Nat.le_of_succ_le span.le, span.inside, fun k lower upper => ?_,
          span.fails⟩, holds⟩
        obtain rfl | later := Nat.eq_or_lt_of_le lower
        · exact passes
        · exact span.passes k later upper
      · rintro ⟨stop, span, holds⟩
        have behind : start < stop := by
          apply Nat.lt_of_le_of_ne span.le
          rintro rfl
          rw [span.fails] at passes
          cases passes
        exact ⟨stop, ⟨behind, span.inside, fun k lower => span.passes k (by omega),
          span.fails⟩, holds⟩

end Span

/-! ## Texts in a memory -/

/-- The text stands at `start`. -/
def Holds {α : Type} (mem : Nat → α) : Nat → List α → Prop
  | _, [] => True
  | start, a :: text => mem start = a ∧ Holds mem (start + 1) text

section Holds

variable {α : Type} {mem mem' : Nat → α} {start : Nat} {text more : List α}

theorem holds_append :
    Holds mem start (text ++ more) ↔ Holds mem start text ∧ Holds mem
    (start + text.length) more := by
  induction text generalizing start with
  | nil => simp [Holds]
  | cons a text inductionHypothesis =>
    rw [List.cons_append, Holds, Holds, inductionHypothesis, and_assoc, List.length_cons]
    rw [show start + 1 + text.length = start + (text.length + 1) by omega]

theorem Holds.apply (holds : Holds mem start text) {k : Nat} (inside : k < text.length) :
    mem (start + k) = text[k] := by
  induction text generalizing start k with
  | nil => simp at inside
  | cons a text inductionHypothesis =>
    cases k with
    | zero => exact holds.1
    | succ k =>
      have later := inductionHypothesis holds.2 (Nat.lt_of_succ_lt_succ inside)
      rw [show start + (k + 1) = start + 1 + k by omega, later]
      rfl

theorem holds_of_apply (same : ∀ k (inside : k < text.length), mem (start + k) = text[k]) :
    Holds mem start text := by
  induction text generalizing start with
  | nil => trivial
  | cons a text inductionHypothesis =>
    refine ⟨same 0 (Nat.succ_pos _), inductionHypothesis fun k inside => ?_⟩
    have later := same (k + 1) (Nat.succ_lt_succ inside)
    rw [show start + 1 + k = start + (k + 1) by omega, later]
    rfl

theorem Holds.congr (same : ∀ k, start ≤ k → mem k = mem' k) (holds : Holds mem start text) :
    Holds mem' start text := by
  apply holds_of_apply
  intro k inside
  rw [← same (start + k) (Nat.le_add_right _ _), holds.apply inside]

theorem Holds.drop (holds : Holds mem start text) {k : Nat} (le : k ≤ text.length) :
    Holds mem (start + k) (text.drop k) := by
  have whole := List.take_append_drop k text
  rw [← whole, holds_append, List.length_take, Nat.min_eq_left le] at holds
  exact holds.2

/-- A text whose characters pass, and one that does not. -/
theorem span_of_holds {test : α → Bool} {limit : Nat} (holds : Holds mem start text)
    (passes : ∀ a ∈ text, test a = true)
    (fails : test (mem (start + text.length)) = false) (inside : start + text.length < limit) :
    Span test mem limit start (start + text.length) where
  le := Nat.le_add_right _ _
  inside := inside
  passes k lower upper := by
    obtain ⟨j, rfl⟩ := Nat.exists_eq_add_of_le lower
    rw [holds.apply (by omega)]
    exact passes _ (List.getElem_mem _)
  fails := fails

end Holds

/-! ## Searches -/

/-- What is looked for stands nowhere in this range. -/
def Missed (found : Nat → Option Bool) (start stop : Nat) : Prop :=
  ∀ k, start ≤ k → k < stop → found k = some false

/-- What is looked for stands first at `k`. -/
structure First (found : Nat → Option Bool) (start stop k : Nat) : Prop where
  le : start ≤ k
  inside : k < stop
  here : found k = some true
  before : Missed found start k

section Search

variable {found found' : Nat → Option Bool} {start stop k k' : Nat}

theorem First.eq (first : First found start stop k) (first' : First found start stop k') :
    k = k' := by
  obtain less | same | more := Nat.lt_trichotomy k k'
  · have missed := first'.before k first.le less
    rw [first.here] at missed
    cases missed
  · exact same
  · have missed := first.before k' first'.le more
    rw [first'.here] at missed
    cases missed

theorem missed_append {middle : Nat} (before : Missed found start middle)
    (behind : Missed found middle stop) :
    Missed found start stop := by
  intro k lower upper
  by_cases less : k < middle
  · exact before k lower less
  · exact behind k (Nat.not_lt.mp less) upper

theorem First.not_missed (first : First found start stop k) : ¬Missed found start stop := by
  intro missed
  have none := missed k first.le first.inside
  rw [first.here] at none
  cases none

/-- Where there is a first place the search ends there. -/
theorem First.search_iff {R : Nat → Prop} {Q : Prop} (first : First found start stop k) :
    ((∃ k, First found start stop k ∧ R k) ∨ Missed found start stop ∧ Q) ↔ R k := by
  constructor
  · rintro (⟨k', first', holds⟩ | ⟨missed, -⟩)
    · rw [first.eq first']
      exact holds
    · exact absurd missed first.not_missed
  · intro holds
    exact .inl ⟨k, first, holds⟩

theorem missed_succ_iff (stands : found start = some false) :
    Missed found (start + 1) stop ↔ Missed found start stop := by
  constructor
  · intro missed k lower upper
    obtain rfl | later := Nat.eq_or_lt_of_le lower
    · exact stands
    · exact missed k later upper
  · intro missed k lower
    exact missed k (by omega)

theorem first_succ_iff (stands : found start = some false) :
    First found (start + 1) stop k ↔ First found start stop k := by
  constructor
  · rintro ⟨le, inside, here, before⟩
    exact ⟨by omega, inside, here, (missed_succ_iff stands).mp before⟩
  · rintro ⟨le, inside, here, before⟩
    have elsewhere : start ≠ k := by
      rintro rfl
      rw [stands] at here
      cases here
    exact ⟨Nat.lt_of_le_of_ne le elsewhere, inside, here, (missed_succ_iff stands).mpr before⟩

/-- A search that can always be answered finds a first place or nothing. -/
theorem first_or_missed (answers : ∀ k, start ≤ k → k < stop → found k ≠ none) :
    (∃ k, First found start stop k) ∨ Missed found start stop := by
  induction left : stop - start generalizing start with
  | zero => exact .inr fun k lower upper => by omega
  | succ left inductionHypothesis =>
    have inside : start < stop := by omega
    cases stands : found start with
    | none => exact absurd stands (answers start (Nat.le_refl _) inside)
    | some answer =>
      cases answer with
      | true => exact .inl ⟨start, Nat.le_refl _, inside, stands, fun k lower upper => by omega⟩
      | false =>
        obtain ⟨k, first⟩ | missed :=
          @inductionHypothesis (start + 1) (fun k lower => answers k (by omega)) (by omega)
        · exact .inl ⟨k, (first_succ_iff stands).mp first⟩
        · exact .inr ((missed_succ_iff stands).mp missed)

/-- A search: its place settles the matter, or it moves on. -/
theorem search_iff {P R : Nat → Prop} {start : Nat}
    (turn : ∀ k, start ≤ k → k < stop →
    (P k ↔ found k = some true ∧ R k ∨ found k = some false ∧ P (k + 1))) :
    P start ↔ (∃ k, First found start stop k ∧ R k) ∨ Missed found start stop ∧
      P (max start stop) := by
  induction left : stop - start generalizing start with
  | zero =>
    have empty : Missed found start stop := fun k lower upper => by omega
    have nowhere : ¬∃ k, First found start stop k ∧ R k := by
      rintro ⟨k, first, -⟩
      have inside := Nat.lt_of_le_of_lt first.le first.inside
      omega
    have last : max start stop = start := by omega
    simp [empty, nowhere, last]
  | succ left inductionHypothesis =>
    have inside : start < stop := by omega
    have next : max (start + 1) stop = max start stop := by omega
    rw [turn start (Nat.le_refl _) inside,
      inductionHypothesis (fun k lower => turn k (by omega)) (by omega), next]
    cases stands : found start with
    | none =>
      constructor
      · rintro (⟨here, -⟩ | ⟨here, -⟩) <;> cases here
      · rintro (⟨k, first, -⟩ | ⟨missed, -⟩)
        · obtain same | later := Nat.eq_or_lt_of_le first.le
          · rw [same, first.here] at stands
            cases stands
          · have missed := first.before start (Nat.le_refl _) later
            rw [stands] at missed
            cases missed
        · have missed := missed start (Nat.le_refl _) inside
          rw [stands] at missed
          cases missed
    | some answer =>
      cases answer with
      | true =>
        have here : First found start stop start :=
          ⟨Nat.le_refl _, inside, stands, fun k lower upper => by omega⟩
        rw [here.search_iff]
        simp
      | false =>
        simp only [Option.some.injEq, Bool.false_eq_true, false_and, true_and, false_or]
        -- the place itself is missed, so both sides are about the places behind it
        simp only [first_succ_iff stands, missed_succ_iff stands]

end Search

end Apue.Base
