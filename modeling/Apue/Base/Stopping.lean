import Apue.Base.Typestate

/-! # Stopping with a given error

Whether code on its own stops with one error, out of all those it may stop with.  A sequence does
where its first part does, or where that part returns and the rest does; what never stops so can be
left out at the end.  The question about a long function comes down to the one call in it that can
raise the error.
-/

namespace Apue.Base.Code

variable {S : Signature} {ε L W α β γ : Type} {kernel : Kernel S W} {error error' : ε}
    {m m' : Code S ε L α} {f : α → Code S ε L β}
  {l l' : L} {w w' : W} {value : α}

/-- Run from here, the code stops with the error. -/
def Stops (kernel : Kernel S W) (error : ε) (m : Code S ε L α) (l : L) (w : W) : Prop :=
  ∃ w', Exec kernel (m l) w (.aborted error) w'

theorem stops_iff_of_exec {outcome : Outcome ε (α × L)} (runs : Exec kernel (m l) w outcome w') :
    Stops kernel error m l w ↔ outcome = .aborted error := by
  constructor
  · rintro ⟨w'', stops⟩
    exact (runs.deterministic stops).1
  · rintro rfl
    exact ⟨w', runs⟩

theorem not_stops_of_returned {result : α × L} (runs : Exec kernel (m l) w (.returned result) w') :
    ¬Stops kernel error m l w := fun stops => by cases (stops_iff_of_exec runs).1 stops

theorem not_stops_of_aborted (runs : Exec kernel (m l) w (.aborted error') w')
    (other : error' ≠ error) :
    ¬Stops kernel error m l w := fun stops => other (by cases (stops_iff_of_exec runs).1 stops; rfl)

/-- What is left when the first part has returned. -/
theorem stops_bind_iff (first : Exec kernel (m l) w (.returned (value, l')) w') :
    Stops kernel error (m >>= f) l w ↔ Stops kernel error (f value) l' w' := by
  constructor
  · rintro ⟨w'', stops⟩
    exact ⟨w'', stops.after first⟩
  · rintro ⟨w'', stops⟩
    exact ⟨w'', Exec.bind first stops⟩

theorem stops_bind_congr {f' : α → Code S ε L γ}
    (rest : ∀ value l' w', Stops kernel error (f value) l' w' ↔ Stops kernel error
    (f' value) l' w') :
    Stops kernel error (m >>= f) l w ↔ Stops kernel error (m >>= f') l w := by
  constructor
  · rintro ⟨w', stops⟩
    obtain ⟨error', same, first⟩ | ⟨⟨value, l'⟩, w₁, first, after⟩ := Exec.of_bind stops
    · cases same
      exact ⟨w', Exec.bind_aborted first⟩
    · exact (stops_bind_iff first).2 ((rest value l' w₁).1 ⟨w', after⟩)
  · rintro ⟨w', stops⟩
    obtain ⟨error', same, first⟩ | ⟨⟨value, l'⟩, w₁, first, after⟩ := Exec.of_bind stops
    · cases same
      exact ⟨w', Exec.bind_aborted first⟩
    · exact (stops_bind_iff first).2 ((rest value l' w₁).2 ⟨w', after⟩)

/-- A sequence whose first part stops with another error. -/
theorem not_stops_bind (first : Exec kernel (m l) w (.aborted error') w') (other : error' ≠ error) :
    ¬Stops kernel error (m >>= f) l w := not_stops_of_aborted (Exec.bind_aborted first) other

theorem stops_if_iff {test : Prop} [Decidable test] :
    Stops kernel error (if test then m else m') l w ↔
      test ∧ Stops kernel error m l w ∨ ¬test ∧ Stops kernel error m' l w := by
  split
  case isTrue holds => simp [holds]
  case isFalse fails => simp [fails]

/-! ## Code that never stops so -/

/-- Complains only of the error. -/
def sparing (error : ε) : Checker S ε Unit where
  guard _ _ := True
  next _ _ _ _ := True
  stops _ other := other ≠ error

/-- The code does not stop with the error, whatever its calls answer. -/
abbrev Never (error : ε) (m : Code S ε L α) : Prop := (sparing error).Preserves (fun _ _ => True) m

namespace Never

open Checker (Preserves)

theorem abort (other : error' ≠ error) : Never error (Code.abort error' : Code S ε L α) :=
  Preserves.abort fun _ _ _ => other

theorem modified (f : L → L) : Never error (modify f : Code S ε L PUnit) :=
  Preserves.modified fun _ _ _ => trivial

theorem call (c : S.Call) : Never error (Code.call c : Code S ε L (S.Answer c)) :=
  Preserves.call (fun _ _ _ => trivial) fun _ _ _ _ _ _ => trivial

theorem not_stops (never : Never error m) : ¬Stops kernel error m l w := by
  rintro ⟨w', stops⟩
  obtain ⟨_, -, spared⟩ := (never.keeps (l := l) (t := ()) trivial).exec (R := fun _ _ => True)
    (fun _ _ _ => ⟨(), trivial, trivial⟩) stops trivial
  exact spared rfl

end Never

theorem stops_bind_never (never : ∀ value, Never error (f value)) :
    Stops kernel error (m >>= f) l w ↔ Stops kernel error m l w := by
  constructor
  · rintro ⟨w', stops⟩
    obtain ⟨error', same, first⟩ | ⟨⟨value, l'⟩, w₁, -, rest⟩ := Exec.of_bind stops
    · cases same
      exact ⟨w', first⟩
    · exact absurd ⟨w', rest⟩ (never value).not_stops
  · rintro ⟨w', stops⟩
    exact ⟨w', Exec.bind_aborted stops⟩

end Apue.Base.Code
