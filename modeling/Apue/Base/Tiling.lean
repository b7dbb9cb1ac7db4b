import Apue.Base.Files

/-! # Files of consecutive items

A file, or a part of one, that holds encoded items one after another with nothing between them.  An
item is named by its offset: `tileAt` finds it and `setTile` replaces it by one of the same length,
which is what an in-place write does to the bytes.
-/

namespace Apue.Base

variable {α : Type} (enc : α → Bytes)

def tileAt : List α → Nat → Option α
  | [], _ => none
  | a :: items, offset =>
    if offset = 0 then some a
    else if offset < (enc a).length then none
    else tileAt items (offset - (enc a).length)

def setTile : List α → Nat → α → List α
  | [], _, _ => []
  | a :: items, offset, b =>
    if offset = 0 then b :: items
    else if offset < (enc a).length then a :: items
    else a :: setTile items (offset - (enc a).length) b

/-- The bytes of the items. -/
abbrev tiles (items : List α) : Bytes := items.flatMap enc

section

variable {enc} (solid : ∀ a, 0 < (enc a).length)

include solid

theorem tileAt_middle (before after : List α) (a : α) :
    tileAt enc (before ++ a :: after) (tiles enc before).length = some a := by
  induction before with
  | nil => simp [tileAt]
  | cons b before inductionHypothesis =>
    have := solid b
    simp only [List.cons_append, tileAt, tiles, List.flatMap_cons, List.length_append]
    rw [if_neg (by omega), if_neg (by omega), Nat.add_sub_cancel_left]
    exact inductionHypothesis

theorem setTile_middle (before after : List α) (a b : α) :
    setTile enc (before ++ a :: after) (tiles enc before).length b = before ++ b :: after := by
  induction before with
  | nil => simp [setTile]
  | cons c before inductionHypothesis =>
    have := solid c
    simp only [List.cons_append, setTile, tiles, List.flatMap_cons, List.length_append]
    rw [if_neg (by omega), if_neg (by omega), Nat.add_sub_cancel_left]
    exact congrArg _ inductionHypothesis

omit solid in
/-- An item splits the list at its offset. -/
theorem tileAt_split {items : List α} {offset : Nat} {a : α}
    (found : tileAt enc items offset = some a) :
    ∃ before after, items = before ++ a :: after ∧ (tiles enc before).length = offset := by
  induction items generalizing offset with
  | nil => simp [tileAt] at found
  | cons b items inductionHypothesis =>
    rw [tileAt] at found
    split at found
    · obtain rfl : b = a := by simpa using found
      exact ⟨[], items, rfl, by simp [*]⟩
    · split at found
      · simp at found
      · obtain ⟨before, after, rfl, length⟩ := inductionHypothesis found
        refine ⟨b :: before, after, rfl, ?_⟩
        simp only [tiles, List.flatMap_cons, List.length_append] at length ⊢
        omega

theorem tileAt_setTile_self {items : List α} {offset : Nat} {a b : α}
    (found : tileAt enc items offset = some a) :
    tileAt enc (setTile enc items offset b) offset = some b := by
  obtain ⟨before, after, rfl, rfl⟩ := tileAt_split found
  rw [setTile_middle solid, tileAt_middle solid]

omit solid in
theorem tileAt_setTile_other {items : List α} {offset other : Nat} {a b : α}
    (found : tileAt enc items offset = some a) (same : (enc b).length = (enc a).length)
    (different : other ≠ offset) :
    tileAt enc (setTile enc items offset b) other = tileAt enc items other := by
  induction items generalizing offset other with
  | nil => rfl
  | cons c items inductionHypothesis =>
    rw [tileAt] at found
    rw [setTile]
    split at found
    case isTrue zero =>
      obtain rfl : c = a := by simpa using found
      have nonzero : ¬other = 0 := by omega
      rw [if_pos zero, tileAt, tileAt, same, if_neg nonzero, if_neg nonzero]
    case isFalse nonzero =>
      split at found
      · simp at found
      · rw [if_neg nonzero, if_neg (by assumption), tileAt, tileAt]
        split
        · rfl
        · split
          · rfl
          · exact inductionHypothesis found (by omega)

omit solid in
theorem tileAt_hasAt {items : List α} {offset : Nat} {a : α}
    (found : tileAt enc items offset = some a) :
    HasAt (tiles enc items) offset (enc a) := by
  obtain ⟨before, after, rfl, rfl⟩ := tileAt_split found
  exact ⟨tiles enc before, tiles enc after, by simp [tiles], rfl⟩

omit solid in
theorem tileAt_bound {items : List α} {offset : Nat} {a : α}
    (found : tileAt enc items offset = some a) :
    offset + (enc a).length ≤ (tiles enc items).length := (tileAt_hasAt found).bound

/-- Writing an item over one of the same length replaces it. -/
theorem tiles_setTile {items : List α} {offset : Nat} {a b : α}
    (found : tileAt enc items offset = some a)
    (same : (enc b).length = (enc a).length) (front back : Bytes) :
    writeAt (front ++ tiles enc items ++ back) (front.length + offset) (enc b) =
      front ++ tiles enc (setTile enc items offset b) ++ back := by
  obtain ⟨before, after, rfl, rfl⟩ := tileAt_split found
  rw [setTile_middle solid]
  have whole : front ++ tiles enc (before ++ a :: after) ++ back =
      (front ++ tiles enc before) ++ enc a ++ (tiles enc after ++ back) := by simp [tiles]
  have offset : front.length + (tiles enc before).length = (front ++ tiles enc before).length := by
    simp
  rw [whole, offset, writeAt_append same]
  simp [tiles]

theorem tiles_setTile_length {items : List α} {offset : Nat} {a b : α}
    (found : tileAt enc items offset = some a)
    (same : (enc b).length = (enc a).length) :
    (tiles enc (setTile enc items offset b)).length = (tiles enc items).length := by
  obtain ⟨before, after, rfl, rfl⟩ := tileAt_split found
  rw [setTile_middle solid]
  simp [tiles, same]

omit solid in
/-- Two items do not overlap. -/
theorem tileAt_apart {items : List α} {offset other : Nat} {a b : α}
    (found : tileAt enc items offset = some a)
    (found' : tileAt enc items other = some b) (less : offset < other) :
    offset + (enc a).length ≤ other := by
  induction items generalizing offset other with
  | nil => simp [tileAt] at found
  | cons c items inductionHypothesis =>
    rw [tileAt] at found found'
    rw [if_neg (by omega)] at found'
    split at found'
    · simp at found'
    · split at found
      · obtain rfl : c = a := by simpa using found
        omega
      · split at found
        · simp at found
        · have := inductionHypothesis found found' (by omega)
          omega

theorem tileAt_append {items : List α} {offset : Nat} {a : α} :
    tileAt enc (items ++ [a]) offset = if offset =
      (tiles enc items).length then some a else tileAt enc items offset := by
  induction items generalizing offset with
  | nil =>
    simp only [List.nil_append, tileAt, tiles, List.flatMap_nil, List.length_nil]
    split
    · rfl
    · split <;> rfl
  | cons b items inductionHypothesis =>
    have := solid b
    simp only [List.cons_append, tileAt, tiles, List.flatMap_cons, List.length_append] at *
    rw [inductionHypothesis]
    split
    · rw [if_neg (by omega)]
    · split
      · rw [if_neg (by omega)]
      · by_cases last : offset - (enc b).length = (List.flatMap enc items).length
        · rw [if_pos last, if_pos (by omega)]
        · rw [if_neg last, if_neg (by omega)]

theorem tileAt_end (items : List α) : tileAt enc items (tiles enc items).length = none := by
  cases found : tileAt enc items (tiles enc items).length with
  | none => rfl
  | some a =>
    have := tileAt_bound found
    have := solid a
    omega

/-- After an item comes the next one, or the end. -/
theorem tileAt_next {items : List α} {offset : Nat} {a : α}
    (found : tileAt enc items offset = some a) :
    offset + (enc a).length = (tiles enc items).length ∨
      ∃ b, tileAt enc items (offset + (enc a).length) = some b := by
  obtain ⟨before, after, rfl, rfl⟩ := tileAt_split found
  cases after with
  | nil => exact .inl (by simp [tiles])
  | cons b after =>
    refine .inr ⟨b, ?_⟩
    have := tileAt_middle solid (before ++ [a]) after b
    simpa [tiles] using this

end

/-- Items of one size stand at the multiples of that size. -/
theorem tileAt_uniform {size : Nat} (pos : 0 < size) (uniform : ∀ a, (enc a).length = size)
    (items : List α) (i : Nat) :
    tileAt enc items (i * size) = items[i]? := by
  induction items generalizing i with
  | nil => rfl
  | cons a items inductionHypothesis =>
    cases i with
    | zero => simp [tileAt]
    | succ i =>
      have step : (i + 1) * size = i * size + size := Nat.succ_mul i size
      rw [tileAt, uniform, if_neg (by omega), if_neg (by omega), step, Nat.add_sub_cancel,
        inductionHypothesis]
      rfl

end Apue.Base
