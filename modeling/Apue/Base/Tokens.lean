import Apue.Base.Text

/-! # Words of a C string

`strtok` skips separators and cuts off one token, `strsep` cuts at the very next separator.  The
`words` of a string are its maximal runs of characters that are no separators: repeated calls of
`strtok` return them one after the other.  Repeated calls of `strsep` return the pieces between the
separators, empty ones too.
-/

namespace Apue.Base

/-- The token and what follows the separator behind it; `none` when only separators are left. -/
def strtok (separator : UInt8 → Bool) (s : Bytes) : Option (Bytes × Bytes) :=
  match s.dropWhile separator with
  | [] => none
  | b :: text =>
    some ((b :: text).takeWhile (!separator ·), ((b :: text).dropWhile (!separator ·)).tail)

/-- The field and what follows the separator behind it, `none` for the null pointer after the last
field. -/
def strsep (separator : UInt8 → Bool) (s : Bytes) : Bytes × Option Bytes :=
  (s.takeWhile (!separator ·),
    match s.dropWhile (!separator ·) with
    | [] => none
    | _ :: rest => some rest)

def words (separator : UInt8 → Bool) (s : Bytes) : List Bytes :=
  (s.splitOnP separator).filter (· ≠ [])

section Words

variable {separator : UInt8 → Bool}

theorem words_nil : words separator [] = [] := by simp [words]

theorem words_append_cons (s t : Bytes) {b : UInt8} (separates : separator b = true) :
    words separator (s ++ b :: t) = words separator s ++ words separator t := by
  rw [words, List.splitOnP_append_cons s t separates, List.filter_append, words, words]

theorem words_cons (t : Bytes) {b : UInt8} (separates : separator b = true) :
    words separator (b :: t) = words separator t := by
  simpa [words_nil] using words_append_cons [] t separates

theorem words_word {s : Bytes} (nonempty : s ≠ []) (solid : ∀ b ∈ s, separator b = false) :
    words separator s = [s] := by
  rw [words, List.splitOnP_eq_singleton solid]
  simp [nonempty]

theorem words_dropWhile (s : Bytes) :
    words separator (s.dropWhile separator) = words separator s := by
  induction s with
  | nil => rfl
  | cons b s inductionHypothesis =>
    cases separates : separator b with
    | true => rw [List.dropWhile_cons_of_pos separates, inductionHypothesis, words_cons s separates]
    | false => rw [List.dropWhile_cons_of_neg (by simp [separates])]

theorem solid_of_mem_splitOnP {s piece : Bytes} (member : piece ∈ s.splitOnP separator) :
    ∀ b ∈ piece, separator b = false := by
  induction s generalizing piece with
  | nil => simp_all
  | cons c s inductionHypothesis =>
    rw [List.splitOnP_cons_eq_if_modifyHead] at member
    cases separates : separator c with
    | true =>
      simp only [separates, if_true, List.mem_cons] at member
      obtain rfl | member := member
      · simp
      · exact inductionHypothesis member
    | false =>
      obtain ⟨first, rest, pieces⟩ := List.exists_cons_of_ne_nil (List.splitOnP_ne_nil separator s)
      simp only [separates, pieces, Bool.false_eq_true, if_false, List.modifyHead_cons,
        List.mem_cons] at member
      -- the first piece grows by a character that is no separator, the others stay
      obtain rfl | member := member
      · simp only [List.mem_cons, forall_eq_or_imp, separates, true_and]
        exact inductionHypothesis (by simp [pieces])
      · exact inductionHypothesis (by simp [pieces, member])

theorem solid_of_mem_words {s word : Bytes} (member : word ∈ words separator s) :
    ∀ b ∈ word, separator b = false :=
  solid_of_mem_splitOnP (List.mem_filter.mp member).1

theorem strtok_none {s : Bytes} (ends : strtok separator s = none) : words separator s = [] := by
  rw [← words_dropWhile]
  cases text : s.dropWhile separator with
  | nil => exact words_nil
  | cons b rest => simp [strtok, text] at ends

theorem strtok_some {s token rest : Bytes} (cuts : strtok separator s = some (token, rest)) :
    words separator s = token :: words separator rest ∧ rest.length < s.length := by
  have shrinks := (List.dropWhile_suffix separator (l := s)).length_le
  rw [← words_dropWhile]
  cases text : s.dropWhile separator with
  | nil => simp [strtok, text] at cuts
  | cons b tail =>
    have solid : separator b = false := by
      have stops : s.dropWhile separator ≠ [] := by simp [text]
      simpa [text] using List.head_dropWhile_not separator stops
    simp only [strtok, text, Option.some.injEq, Prod.mk.injEq] at cuts
    obtain ⟨rfl, rfl⟩ := cuts
    simp only [text, List.length_cons] at shrinks
    have tokenSolid : ∀ c ∈ (b :: tail).takeWhile (!separator ·), separator c = false := by
      intro c member
      simpa using List.mem_takeWhile_imp member
    have tokenNonempty : (b :: tail).takeWhile (!separator ·) ≠ [] := by simp [solid]
    have parts := List.takeWhile_append_dropWhile (p := (!separator ·)) (l := b :: tail)
    cases behind : (b :: tail).dropWhile (!separator ·) with
    | nil =>
      -- the token is the rest of the string
      rw [behind, List.append_nil] at parts
      rw [parts] at tokenSolid ⊢
      simp only [List.tail_nil, words_nil, List.length_nil]
      exact ⟨words_word (by simp) tokenSolid, by omega⟩
    | cons c rest =>
      have separates : separator c = true := by
        have stops : (b :: tail).dropWhile (!separator ·) ≠ [] := by simp [behind]
        simpa [behind] using List.head_dropWhile_not (!separator ·) stops
      rw [behind] at parts
      have lengths := congrArg List.length parts
      simp only [List.length_append, List.length_cons] at lengths
      constructor
      · conv_lhs => rw [← parts]
        rw [words_append_cons _ _ separates, words_word tokenNonempty tokenSolid]
        rfl
      · simp only [List.tail_cons]
        omega

/-- The fields of a string are cut off one after another. -/
theorem splitOnP_eq_strsep (s : Bytes) : s.splitOnP separator =
    (strsep separator s).1 :: ((strsep separator s).2.map (·.splitOnP separator)).getD [] := by
  have parts := List.takeWhile_append_dropWhile (p := (!separator ·)) (l := s)
  have solid : ∀ b ∈ s.takeWhile (!separator ·), separator b = false := by
    intro b member
    simpa using List.mem_takeWhile_imp member
  cases behind : s.dropWhile (!separator ·) with
  | nil =>
    rw [behind, List.append_nil] at parts
    rw [parts] at solid
    simp [strsep, behind, parts, List.splitOnP_eq_singleton solid]
  | cons c rest =>
    have separates : separator c = true := by
      have stops : s.dropWhile (!separator ·) ≠ [] := by simp [behind]
      simpa [behind] using List.head_dropWhile_not (!separator ·) stops
    have cut : s.splitOnP separator = (s.takeWhile (!separator ·)).splitOnP separator ++
        rest.splitOnP separator := by
      conv_lhs => rw [← parts, behind]
      exact List.splitOnP_append_cons _ _ separates
    rw [cut, List.splitOnP_eq_singleton solid]
    simp [strsep, behind]

theorem strsep_shorter {s rest : Bytes} (more : (strsep separator s).2 = some rest) :
    rest.length < s.length := by
  have shrinks := (List.dropWhile_suffix (!separator ·) (l := s)).length_le
  cases behind : s.dropWhile (!separator ·) with
  | nil => simp [strsep, behind] at more
  | cons c tail =>
    obtain rfl : tail = rest := by simpa [strsep, behind] using more
    simp only [behind, List.length_cons] at shrinks
    omega

/-- Every separator makes one more field. -/
theorem length_splitOnP (s : Bytes) : (s.splitOnP separator).length = s.countP separator + 1 := by
  induction s with
  | nil => simp
  | cons b s inductionHypothesis =>
    rw [List.splitOnP_cons_eq_if_modifyHead]
    cases separates : separator b with
    | true => simp [separates, inductionHypothesis]
    | false => simp [separates, inductionHypothesis]

end Words

end Apue.Base
