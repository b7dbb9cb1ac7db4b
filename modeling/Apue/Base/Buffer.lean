import Apue.Base.Text

/-! # Arrays and the accesses to them

A C array is a list of fixed length.  Every access gives `none` where it would touch an element
outside the array, so code over these operations that gives `some` has stayed inside its arrays.
The lemmas say what an access gives inside; those about strings ask for a NUL at or behind the place
where the reading begins.
-/

namespace Apue.Base

section Arrays

variable {α : Type} {buf buf' : List α} {i n : Nat}

/-- `buf[i] = v`. -/
def store (buf : List α) (i : Nat) (v : α) : Option (List α) :=
  if i < buf.length then some (buf.set i v) else none

/-- `memcpy(buf + i, bytes, n)` with the `n` elements of `bytes`. -/
def copyIn (buf : List α) (i : Nat) (bytes : List α) : Option (List α) :=
  if i + bytes.length ≤
    buf.length then some (buf.take i ++ bytes ++ buf.drop (i + bytes.length)) else none

/-- `memcpy(bytes, buf + i, n)`. -/
def copyOut (buf : List α) (i n : Nat) : Option (List α) :=
  if i + n ≤ buf.length then some ((buf.drop i).take n) else none

/-- `n` turns of `*ptr++ = v`. -/
def fill (buf : List α) (i : Nat) : Nat → α → Option (List α)
  | 0, _ => some buf
  | n + 1, v => (store buf i v).bind fun buf => fill buf (i + 1) n v

/-- How far a loop gets that goes on while the test holds of the element it reads. -/
def scan (test : α → Bool) : List α → Option Nat
  | [] => none
  | b :: rest => if test b then (scan test rest).map (· + 1) else some 0

/-- The place where such a loop ends that begins at `i`. -/
def scanFrom (test : α → Bool) (buf : List α) (i : Nat) : Option Nat :=
  (scan test (buf.drop i)).map (i + ·)

/-- `while (test(*ptr)) *ptr++ = v`, from the first element on. -/
def fillWhile (test : α → Bool) (v : α) : List α → Option (List α)
  | [] => none
  | b :: rest => if test b then (fillWhile test v rest).map (v :: ·) else some (b :: rest)

theorem store_eq (inside : i < buf.length) (v : α) : store buf i v = some (buf.set i v) :=
  if_pos inside

theorem store_append {text rest : List α} (inside : i < text.length) (v : α) :
    store (text ++ rest) i v = some (text.set i v ++ rest) := by
  rw [store_eq (by simp; omega), List.set_append_left _ _ inside]

theorem copyIn_eq {bytes : List α} (inside : i + bytes.length ≤ buf.length) :
    copyIn buf i bytes = some (buf.take i ++ bytes ++ buf.drop (i + bytes.length)) := if_pos inside

theorem copyIn_front {bytes : List α} (inside : bytes.length ≤ buf.length) :
    copyIn buf 0 bytes = some (bytes ++ buf.drop bytes.length) := by
  simp [copyIn, inside]

/-- A copy behind the front part of an array makes that part longer. -/
theorem copyIn_behind {text bytes : List α} (front : text <+: buf)
    (room : text.length + bytes.length ≤ buf.length) :
    ∃ buf', copyIn buf text.length bytes = some buf' ∧ text ++ bytes <+: buf' ∧
      buf'.length = buf.length := by
  refine ⟨_, copyIn_eq room, ?_, by simp; omega⟩
  rw [← List.prefix_iff_eq_take.mp front]
  exact List.prefix_append _ _

theorem store_behind {text : List α} (front : text <+: buf)
    (room : text.length < buf.length) (v : α) :
    ∃ buf', store buf text.length v = some buf' ∧ text ++ [v] <+: buf' ∧
      buf'.length = buf.length := by
  obtain ⟨rest, rfl⟩ := front
  refine ⟨_, store_eq room v, ?_, by simp⟩
  cases rest with
  | nil => simp at room
  | cons first rest => exact ⟨rest, by simp⟩

theorem copyOut_eq (inside : i + n ≤ buf.length) : copyOut buf i n = some ((buf.drop i).take n) :=
  if_pos inside

theorem fill_eq (v : α) (inside : i + n ≤ buf.length) :
    fill buf i n v = some (buf.take i ++ List.replicate n v ++ buf.drop (i + n)) := by
  induction n generalizing buf i with
  | zero => simp [fill]
  | succ n inductionHypothesis =>
    have here : i < buf.length := by omega
    rw [fill, store_eq here, Option.bind_some, inductionHypothesis (by simp; omega)]
    -- the element just filled ends the part in front of the rest
    have front : (buf.set i v).take (i + 1) = buf.take i ++ [v] := by
      rw [List.take_add_one, List.take_set_of_le (Nat.le_refl i), List.getElem?_set_self here,
        Option.toList_some]
    have back : (buf.set i v).drop (i + 1 + n) = buf.drop (i + (n + 1)) := by
      rw [List.drop_set_of_lt (by omega), Nat.add_assoc, Nat.add_comm 1 n]
    rw [front, back, List.replicate_succ]
    simp

/-- A loop that goes on at an element is stopped by one behind it. -/
theorem stops_behind {test : α → Bool} {b : α} {rest : List α}
    (stops : ∃ c ∈ b :: rest, test c = false) (passes : test b = true) :
    ∃ c ∈ rest, test c = false := by
  obtain ⟨c, member, fails⟩ := stops
  obtain rfl | member := List.mem_cons.1 member
  · rw [passes] at fails
    cases fails
  · exact ⟨c, member, fails⟩

theorem scan_eq {test : α → Bool} (stops : ∃ b ∈ buf, test b = false) :
    scan test buf = some (buf.takeWhile test).length := by
  induction buf with
  | nil => simp at stops
  | cons b rest inductionHypothesis =>
    cases passes : test b with
    | false => simp [scan, passes]
    | true => simp [scan, passes, inductionHypothesis (stops_behind stops passes)]

theorem scanFrom_eq {test : α → Bool} (stops : ∃ b ∈ buf.drop i, test b = false) :
    scanFrom test buf i = some (i + ((buf.drop i).takeWhile test).length) := by
  rw [scanFrom, scan_eq stops, Option.map_some]

theorem fillWhile_eq {test : α → Bool} (v : α) (stops : ∃ b ∈ buf, test b = false) :
    fillWhile test v buf = some (List.replicate (buf.takeWhile test).length v ++
      buf.dropWhile test) := by
  induction buf with
  | nil => simp at stops
  | cons b rest inductionHypothesis =>
    cases passes : test b with
    | false => simp [fillWhile, passes]
    | true =>
      simp [fillWhile, passes, inductionHypothesis (stops_behind stops passes), List.replicate_succ]

end Arrays

/-! ## Strings in an array -/

section Strings

variable {buf : Bytes} {i : Nat} {c : UInt8}

/-- The string at the beginning of an array, which is to have an end. -/
def cstrIn (buf : Bytes) : Option Bytes := if 0 ∈ buf then some (cstr buf) else none

/-- `strchr(buf + i, c)`: the place of the character, `none` for the null pointer. -/
def strchrIn (buf : Bytes) (i : Nat) (c : UInt8) : Option (Option Nat) := do
  let stop ← scanFrom (fun b => b ≠ c && b ≠ 0) buf i
  let b ← buf[stop]?
  pure (if b = c then some stop else none)

/-- `atol(buf + i)`. -/
def atolIn (buf : Bytes) (i : Nat) : Option Int := do
  let sign ← scanFrom isSpace buf i
  let first ← buf[sign]?
  let start := if first = 45 ∨ first = 43 then sign + 1 else sign
  let stop ← scanFrom isDigit buf start
  let value := digitsValue ((buf.drop start).take (stop - start))
  pure (if first = 45 then -(min value (2 ^ 63) : Nat) else (min value (2 ^ 63 - 1) : Nat))

theorem cstrIn_eq {text : Bytes} (front : text ++ [0] <+: buf) (clean : NulFree text) :
    cstrIn buf = some text := by
  obtain ⟨rest, split⟩ := front
  have split' : buf = text ++ 0 :: rest := by simp [← split]
  rw [cstrIn, if_pos (by simp [split']), split', cstr_append_zero clean]

/-- A character that is found splits the string. -/
theorem strchr_eq_some {s : Bytes} {first : Nat} (found : strchr s c = some first) :
    ∃ before after, s = before ++ c :: after ∧ before.length = first ∧ NulFree before := by
  rw [strchr, List.findIdx?_eq_some_iff_getElem] at found
  obtain ⟨inside, here, -⟩ := found
  obtain ⟨rest, whole⟩ : cstr s <+: s := List.takeWhile_prefix _
  have split : cstr s = (cstr s).take first ++ c :: (cstr s).drop (first + 1) := by
    have here : (cstr s)[first] = c := by simpa using here
    rw [← here, ← List.drop_eq_getElem_cons, List.take_append_drop]
  refine ⟨(cstr s).take first, (cstr s).drop (first + 1) ++ rest, ?_, ?_, ?_⟩
  · rw [← List.cons_append, ← List.append_assoc, ← split, whole]
  · rw [List.length_take]
    omega
  · exact fun zero => nulFree_cstr s (List.mem_of_mem_take zero)

/-- The element at which a scan ends. -/
theorem exists_stop {α : Type} {test : α → Bool} {s : List α} (stops : ∃ b ∈ s, test b = false) :
    ∃ b rest, s.dropWhile test = b :: rest ∧ s = s.takeWhile test ++ b :: rest ∧
      test b = false := by
  obtain ⟨c, member, fails⟩ := stops
  cases left : s.dropWhile test with
  | nil =>
    rw [List.dropWhile_eq_nil_iff] at left
    rw [left c member] at fails
    cases fails
  | cons b rest =>
    have whole := List.takeWhile_append_dropWhile (p := test) (l := s)
    rw [left] at whole
    refine ⟨b, rest, rfl, whole.symm, ?_⟩
    have head := List.head_dropWhile_not test (l := s) (by simp [left])
    simpa [left] using head

/-- What stands behind the element at which a scan ends makes no difference. -/
theorem span_append {α : Type} {test : α → Bool} {s : List α} (stops : ∃ b ∈ s, test b = false)
    (rest : List α) :
    (s ++ rest).takeWhile test = s.takeWhile test ∧
    (s ++ rest).dropWhile test = s.dropWhile test ++ rest := by
  obtain ⟨b, member, fails⟩ := stops
  have proper : ¬∀ c ∈ s, test c = true := by
    intro all
    rw [all b member] at fails
    cases fails
  have short : (s.takeWhile test).length ≠ s.length := by
    intro whole
    exact proper (List.takeWhile_eq_self_iff.1 ((List.takeWhile_prefix test).eq_of_length whole))
  have more : ¬(s.dropWhile test).isEmpty := by simpa [List.isEmpty_iff] using proper
  exact ⟨by rw [List.takeWhile_append, if_neg short], by rw [List.dropWhile_append, if_neg more]⟩

theorem cstr_append_of_mem {s : Bytes} (terminated : 0 ∈ s) (rest : Bytes) :
    cstr (s ++ rest) = cstr s :=
  (span_append ⟨0, terminated, by simp⟩ rest).1

theorem not_isSpace_zero : isSpace 0 = false := by decide

theorem not_isDigit_zero : isDigit 0 = false := by decide

/-- The number or the sign behind the blanks, in a string that has an end. -/
theorem exists_number {s : Bytes} (terminated : 0 ∈ s) :
    ∃ first rest, s.dropWhile isSpace = first :: rest ∧ s = s.takeWhile isSpace ++ first :: rest ∧
      0 ∈ first :: rest := by
  obtain ⟨first, rest, text, split, -⟩ :=
    exists_stop (show ∃ b ∈ s, isSpace b = false from ⟨0, terminated, not_isSpace_zero⟩)
  refine ⟨first, rest, text, split, ?_⟩
  rw [split] at terminated
  obtain blank | later := List.mem_append.1 terminated
  · have blank := List.mem_takeWhile_imp blank
    rw [not_isSpace_zero] at blank
    cases blank
  · exact later

theorem mem_of_signed {first : UInt8} {rest : Bytes} (later : 0 ∈ first :: rest)
    (signed : first = 45 ∨ first = 43) : 0 ∈ rest := by
  refine (List.mem_cons.1 later).resolve_left ?_
  rintro rfl
  simp at signed

theorem atol_append_of_mem {s : Bytes} (terminated : 0 ∈ s) (rest : Bytes) :
    atol (s ++ rest) = atol s := by
  obtain ⟨first, digits, text, -, later⟩ := exists_number terminated
  rw [atol, atol, (span_append ⟨0, terminated, not_isSpace_zero⟩ rest).2, text]
  simp only [List.cons_append, List.head?_cons, List.tail_cons, Option.some.injEq]
  -- behind a sign the digits begin one character later
  by_cases signed : first = 45 ∨ first = 43
  · rw [(span_append ⟨0, mem_of_signed later signed, not_isDigit_zero⟩ rest).1]
    obtain rfl | rfl := signed <;> rfl
  · have notMinus : first ≠ 45 := fun minus => signed (.inl minus)
    have notPlus : first ≠ 43 := fun plus => signed (.inr plus)
    rw [← List.cons_append, (span_append ⟨0, later, not_isDigit_zero⟩ rest).1]
    simp only [notMinus, notPlus, if_false]

/-- A NUL behind a number that ends with the array changes nothing. -/
theorem atol_append_zero (s : Bytes) : atol (s ++ [0]) = atol s := by
  have digits (t : Bytes) : (t ++ [0]).takeWhile isDigit = t.takeWhile isDigit := by
    rw [List.takeWhile_append]
    split
    case isTrue whole =>
      simpa [not_isDigit_zero] using (List.takeWhile_prefix isDigit).eq_of_length whole |>.symm
    case isFalse => rfl
  have blanks : (s ++ [0]).dropWhile isSpace = s.dropWhile isSpace ++ [0] := by
    rw [List.dropWhile_append]
    split
    case isTrue empty => simp [not_isSpace_zero, List.isEmpty_iff.1 empty]
    case isFalse => rfl
  rw [atol, atol, blanks]
  cases s.dropWhile isSpace with
  | nil => rfl
  | cons first rest =>
    have longer := digits (first :: rest)
    rw [List.cons_append] at longer
    simp only [List.cons_append, List.head?_cons, List.tail_cons, digits, longer]
    rfl

theorem drop_behind {before rest : Bytes} (split : buf.drop i = before ++ rest) :
    buf.drop (i + before.length) = rest := by
  rw [← List.drop_drop, split, List.drop_left]

theorem getElem?_of_drop {rest : Bytes} {b : UInt8} (split : buf.drop i = b :: rest) :
    buf[i]? = some b := by
  rw [← List.head?_drop, split, List.head?_cons]

theorem strchrIn_eq (terminated : 0 ∈ buf.drop i) (nonzero : c ≠ 0) :
    strchrIn buf i c = some ((strchr (buf.drop i) c).map (i + ·)) := by
  have stops : ∃ b ∈ buf.drop i, (decide (b ≠ c) && decide (b ≠ 0)) = false :=
    ⟨0, terminated, by simp⟩
  obtain ⟨b, rest, -, split, fails⟩ := exists_stop stops
  have others : ∀ d ∈ (buf.drop i).takeWhile fun b => decide (b ≠ c) && decide (b ≠ 0), d ≠ c ∧
      d ≠ 0 := by
    intro d member
    simpa using List.mem_takeWhile_imp member
  rw [strchrIn, scanFrom_eq stops, Option.bind_eq_bind, Option.bind_some,
    getElem?_of_drop (drop_behind split)]
  set before := (buf.drop i).takeWhile fun b => decide (b ≠ c) && decide (b ≠ 0)
  have clean : NulFree before := fun member => (others 0 member).2 rfl
  have absent : c ∉ before := fun member => (others c member).1 rfl
  -- the loop has stopped at the character, or else at the NUL
  by_cases same : b = c
  · subst same
    rw [split, strchr_append clean absent nonzero]
    simp
  · have zero : b = 0 := by simpa [same] using fails
    subst zero
    rw [split, strchr_eq_none (by rwa [cstr_append_zero clean])]
    simp [Ne.symm nonzero]

theorem scanDigits_eq (terminated : 0 ∈ buf.drop i) :
    ∃ stop, scanFrom isDigit buf i = some stop ∧
      (buf.drop i).take (stop - i) = (buf.drop i).takeWhile isDigit := by
  refine ⟨_, scanFrom_eq ⟨0, terminated, not_isDigit_zero⟩, ?_⟩
  rw [Nat.add_sub_cancel_left]
  exact (List.prefix_iff_eq_take.1 (List.takeWhile_prefix _)).symm

theorem atolIn_eq (terminated : 0 ∈ buf.drop i) : atolIn buf i = some (atol (buf.drop i)) := by
  obtain ⟨first, rest, text, split, later⟩ := exists_number terminated
  have behind := drop_behind split
  rw [atolIn, scanFrom_eq ⟨0, terminated, not_isSpace_zero⟩, Option.bind_eq_bind, Option.bind_some,
    getElem?_of_drop behind,
    Option.bind_eq_bind, Option.bind_some, atol, text]
  set sign := i + ((buf.drop i).takeWhile isSpace).length
  by_cases signed : first = 45 ∨ first = 43
  · have digits : buf.drop (sign + 1) = rest := by
      rw [← List.drop_drop, behind, List.drop_one, List.tail_cons]
    obtain ⟨stop, scans, taken⟩ := scanDigits_eq (digits ▸ mem_of_signed later signed)
    rw [digits] at taken
    simp only [signed, if_true, scans, Option.bind_some, digits, taken, List.head?_cons,
      List.tail_cons, Option.some.injEq]
    obtain rfl | rfl := signed <;> rfl
  · obtain ⟨stop, scans, taken⟩ := scanDigits_eq (behind ▸ later)
    rw [behind] at taken
    have notMinus : first ≠ 45 := fun minus => signed (.inl minus)
    have notPlus : first ≠ 43 := fun plus => signed (.inr plus)
    rw [if_neg signed]
    simp only [scans, Option.bind_some, behind, taken, List.head?_cons, Option.some.injEq, notMinus,
      notPlus, if_false]
    rfl

end Strings

/-! ## Texts that are built up in an array -/

/-- A `char *` into an array. -/
structure Pointer where
  array : Bytes
  cp : Nat

namespace Pointer

/-- `*cp++ = b` for the bytes one after the other. -/
def put (bytes : Bytes) (p : Pointer) : Option Pointer :=
  (copyIn p.array p.cp bytes).map (⟨·, p.cp + bytes.length⟩)

/-- `strcpy(cp, s); cp += strlen(s)`. -/
def putString (s : Bytes) (p : Pointer) : Option Pointer :=
  (copyIn p.array p.cp (cstr s ++ [0])).map (⟨·, p.cp + strlen s⟩)

/-- The array begins with the text, and the pointer is behind it. -/
structure Holds (size : Nat) (text : Bytes) (p : Pointer) : Prop where
  width : p.array.length = size
  front : text <+: p.array
  behind : p.cp = text.length

/-- The code appends the bytes and writes up to `slack` bytes behind them, and it stays in the array
just when there is room. -/
structure Appends (m : Pointer → Option Pointer) (bytes : Bytes) (slack : Nat) : Prop where
  of_room {size : Nat} {text : Bytes} {p : Pointer} (holds : Holds size text p)
    (room : text.length + bytes.length + slack ≤ size) :
    ∃ p', m p = some p' ∧ Holds size (text ++ bytes) p'
  of_full {size : Nat} {text : Bytes} {p : Pointer} (holds : Holds size text p)
    (full : size < text.length + bytes.length + slack) :
    m p = none

variable {m m' : Pointer → Option Pointer} {bytes bytes' text : Bytes} {slack slack' size : Nat}
    {p : Pointer}

/-- A copy of the bytes and of something behind them. -/
theorem holds_copyIn (bytes rest : Bytes) (holds : Holds size text p)
    (room : text.length + (bytes ++ rest).length ≤ size) :
    ∃ array, copyIn p.array p.cp (bytes ++ rest) = some array ∧
      Holds size (text ++ bytes) ⟨array, p.cp + bytes.length⟩ := by
  obtain ⟨width, ⟨behind, whole⟩, place⟩ := holds
  have inside : p.cp + (bytes ++ rest).length ≤ p.array.length := by omega
  refine ⟨_, copyIn_eq inside, ?_, ?_, ?_⟩
  · rw [← width]
    simp only [List.length_append, List.length_take, List.length_drop] at *
    omega
  · rw [place, ← whole, List.take_left, ← List.append_assoc text, List.append_assoc (text ++ bytes)]
    exact List.prefix_append _ _
  · simp only [place, List.length_append]

theorem appends_put (bytes : Bytes) : Appends (put bytes) bytes 0 where
  of_room holds room := by
    obtain ⟨array, copied, holds'⟩ := holds_copyIn bytes [] holds (by simpa using room)
    rw [List.append_nil] at copied
    exact ⟨_, by rw [put, copied, Option.map_some], holds'⟩
  of_full holds full := by
    rw [put, copyIn, if_neg (by rw [holds.behind, holds.width]; omega), Option.map_none]

theorem appends_putString (s : Bytes) : Appends (putString s) (cstr s) 1 where
  of_room holds room := by
    obtain ⟨array, copied, holds'⟩ := holds_copyIn (cstr s) [0] holds (by simp; omega)
    exact ⟨_, by rw [putString, copied, Option.map_some]; rfl, holds'⟩
  of_full {size text p} holds full := by
    have outside : ¬p.cp + (cstr s ++ [0]).length ≤ p.array.length := by
      rw [holds.behind, holds.width]
      simp
      omega
    rw [putString, copyIn, if_neg outside, Option.map_none]

/-- One after the other, when what the first writes behind its bytes is written again. -/
theorem Appends.bind (first : Appends m bytes slack) (second : Appends m' bytes' slack')
    (covered : slack ≤ bytes'.length + slack') :
    Appends (fun p => (m p).bind m') (bytes ++ bytes') slack' where
  of_room holds room := by
    rw [List.length_append] at room
    obtain ⟨p', moves, holds'⟩ := first.of_room holds (by omega)
    obtain ⟨p'', moves', holds''⟩ := second.of_room holds' (by rw [List.length_append]; omega)
    rw [List.append_assoc] at holds''
    exact ⟨p'', by rw [moves, Option.bind_some, moves'], holds''⟩
  of_full {size text p} holds full := by
    rw [List.length_append] at full
    -- what does not fit is the second, or already the first
    by_cases room : text.length + bytes.length + slack ≤ size
    · obtain ⟨p', moves, holds'⟩ := first.of_room holds room
      rw [moves, Option.bind_some, second.of_full holds' (by rw [List.length_append]; omega)]
    · rw [first.of_full holds (by omega), Option.bind_none]

theorem Appends.isSome_iff (appends : Appends m bytes slack) (holds : Holds size text p) :
    (m p).isSome ↔ text.length + bytes.length + slack ≤ size := by
  by_cases room : text.length + bytes.length + slack ≤ size
  · obtain ⟨p', writes, -⟩ := appends.of_room holds room
    simp [writes, room]
  · simp [appends.of_full holds (by omega), room]

end Pointer

end Apue.Base
