import Mathlib.Algebra.BigOperators.Group.List.Basic
import Mathlib.Algebra.GroupWithZero.Nat

/-! # Work lists

A search with a work list visits its items one after the other.  A visit finds a result, which ends
the search, or gives more items, which are put at the end.  The search ends if every item is heavier
than what its visit gives; then it has a result just when there is one at some item or at one that
comes from it, and the result is one of these.
-/

namespace Apue.Base

variable {ι ρ : Type*} {visit : ι → Option ρ × List ι}

/-- The search with so many turns; `some none` when the list is empty. -/
def search (visit : ι → Option ρ × List ι) : Nat → List ι → Option (Option ρ)
  | 0, _ => none
  | _ + 1, [] => some none
  | fuel + 1, item :: rest =>
    match visit item with
    | (some result, _) => some (some result)
    | (none, more) => search visit fuel (rest ++ more)

/-- What an item has is what its visit finds, or what an item that its visit gives has. -/
structure Finds (visit : ι → Option ρ × List ι) (Inv : ι → Prop) (Has : ι → ρ → Prop) : Prop where
  kept : ∀ item, Inv item → (visit item).1 = none → ∀ item' ∈ (visit item).2, Inv item'
  sound : ∀ item result, Inv item → (visit item).1 = some result → Has item result
  below : ∀ item item' result, Inv item → (visit item).1 = none → item' ∈ (visit item).2 →
    Has item' result → Has item result
  complete : ∀ item result, Inv item → (visit item).1 = none → Has item result →
    ∃ item' ∈ (visit item).2, Has item' result

/-- The items after a visit without a result. -/
theorem Finds.next {Inv : ι → Prop} {Has : ι → ρ → Prop} (finds : Finds visit Inv Has) {item : ι}
    {rest more : List ι}
    (visited : visit item = (none, more)) (inv : ∀ item' ∈ item :: rest, Inv item') :
    (∀ item' ∈ rest ++ more, Inv item') ∧
      ∀ result, (∃ item' ∈ rest ++ more, Has item' result) ↔
        ∃ item' ∈ item :: rest, Has item' result := by
  have invItem := inv item List.mem_cons_self
  have noResult : (visit item).1 = none := by rw [visited]
  have isMore : (visit item).2 = more := by rw [visited]
  constructor
  · intro item' member
    obtain old | new := List.mem_append.mp member
    · exact inv item' (List.mem_cons_of_mem _ old)
    · exact finds.kept item invItem noResult item' (isMore ▸ new)
  · intro result
    constructor
    · rintro ⟨item', member, has⟩
      obtain old | new := List.mem_append.mp member
      · exact ⟨item', List.mem_cons_of_mem _ old, has⟩
      · exact ⟨item, List.mem_cons_self, finds.below item item' result invItem noResult
          (isMore ▸ new) has⟩
    · rintro ⟨item', member, has⟩
      obtain rfl | old := List.mem_cons.mp member
      · obtain ⟨item'', new, has'⟩ := finds.complete item' result invItem noResult has
        exact ⟨item'', List.mem_append_right _ (isMore ▸ new), has'⟩
      · exact ⟨item', List.mem_append_left _ old, has⟩

/-- The weight of the list is the number of turns. -/
theorem search_ends {Inv : ι → Prop} {Has : ι → ρ → Prop} (finds : Finds visit Inv Has)
    (weight : ι → Nat)
    (lighter : ∀ item, Inv item → (visit item).1 = none →
    ((visit item).2.map weight).sum < weight item) (fuel : Nat)
    (items : List ι) (inv : ∀ item ∈ items, Inv item) (enough : (items.map weight).sum < fuel) :
    ∃ result, search visit fuel items = some result := by
  induction fuel generalizing items with
  | zero => omega
  | succ fuel inductionHypothesis =>
    cases items with
    | nil => exact ⟨none, rfl⟩
    | cons item rest =>
      cases visited : visit item with
      | mk result more =>
        cases result with
        | some result => exact ⟨some result, by simp [search, visited]⟩
        | none =>
          have less := lighter item (inv item List.mem_cons_self) (by rw [visited])
          simp only [visited] at less
          simp only [search, visited]
          apply inductionHypothesis (rest ++ more) (finds.next visited inv).1
          rw [List.map_cons, List.sum_cons] at enough
          rw [List.map_append, List.sum_append]
          omega

/-- A result that is found is one of an item's, and without one no item has any. -/
theorem search_exact {Inv : ι → Prop} {Has : ι → ρ → Prop} (finds : Finds visit Inv Has)
    (fuel : Nat) (items : List ι)
    {result : Option ρ} (inv : ∀ item ∈ items, Inv item)
    (run : search visit fuel items = some result) :
    (∀ found, result = some found → ∃ item ∈ items, Has item found) ∧
      (result = none → ∀ found, ¬∃ item ∈ items, Has item found) := by
  induction fuel generalizing items with
  | zero => cases run
  | succ fuel inductionHypothesis =>
    cases items with
    | nil =>
      obtain rfl : none = result := by simpa [search] using run
      simp
    | cons item rest =>
      cases visited : visit item with
      | mk result' more =>
        simp only [search, visited] at run
        cases result' with
        | some found =>
          have has := finds.sound item found (inv item List.mem_cons_self) (by rw [visited])
          obtain rfl : some found = result := by simpa using run
          refine ⟨?_, fun absent => by cases absent⟩
          rintro found' ⟨⟩
          exact ⟨item, List.mem_cons_self, has⟩
        | none =>
          obtain ⟨inv', same⟩ := finds.next visited inv
          obtain ⟨isFound, notFound⟩ := inductionHypothesis (rest ++ more) inv' run
          exact ⟨fun found eq => (same found).mp (isFound found eq),
            fun eq found has => notFound eq found ((same found).mpr has)⟩

end Apue.Base
