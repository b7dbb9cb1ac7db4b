import Apue.Base.Buffer
import Apue.Base.Tokens
import Mathlib.Data.List.Forall2

/-! # Strings that are cut up in place

`strtok` and `strsep` put a NUL behind the piece they return and go on behind it, so the pieces are
strings in the array they were given.  Here the array is there, and every access to it is checked.
What the calls return are the pieces of `Tokens`, and a piece that was returned once stays in its
place.
-/

namespace Apue.Base

variable {buf buf' : Bytes} {separator : UInt8 → Bool} {text token rest : Bytes} {p n : Nat}

/-! ## The string at a place -/

/-- The string that begins at the place. -/
def Reads (buf : Bytes) (p : Nat) (text : Bytes) : Prop := text ++ [0] <+: buf.drop p ∧ NulFree text

namespace Reads

theorem of_split (split : buf.drop p = text ++ 0 :: rest) (clean : NulFree text) :
    Reads buf p text :=
  ⟨⟨rest, by simp [split]⟩, clean⟩

theorem split (reads : Reads buf p text) : ∃ rest, buf.drop p = text ++ 0 :: rest := by
  obtain ⟨⟨rest, split⟩, -⟩ := reads
  exact ⟨rest, by simp [← split]⟩

theorem cstr_eq (reads : Reads buf p text) : cstr (buf.drop p) = text := by
  obtain ⟨rest, split⟩ := reads.split
  rw [split, cstr_append_zero reads.2]

theorem unique {text' : Bytes} (reads : Reads buf p text) (reads' : Reads buf p text') :
    text = text' :=
  reads.cstr_eq.symm.trans reads'.cstr_eq

theorem length_lt (reads : Reads buf p text) : p + text.length < buf.length := by
  have length := reads.1.length_le
  simp only [List.length_append, List.length_singleton, List.length_drop] at length
  omega

/-- A string depends on the array up to its NUL. -/
theorem frame (reads : Reads buf p text) (same : buf'.take n = buf.take n)
    (inside : p + text.length < n) :
    Reads buf' p text := by
  -- the string and its NUL lie in the part that is the same
  have shorter : buf'.take (p + (text ++ [0]).length) = buf.take (p + (text ++ [0]).length) := by
    have within : p + (text ++ [0]).length ≤ n := by
      simp only [List.length_append, List.length_singleton]; omega
    rw [← Nat.min_eq_left within, ← List.take_take, same, List.take_take]
  have front := reads.1
  rw [List.prefix_iff_eq_take,
    List.take_drop, ← shorter, ← List.take_drop, ← List.prefix_iff_eq_take] at front
  exact ⟨front, reads.2⟩

end Reads

theorem reads_cstr (terminated : 0 ∈ buf.drop p) : Reads buf p (cstr (buf.drop p)) := by
  obtain ⟨b, behind, -, split, stops⟩ :=
    exists_stop (show ∃ b ∈ buf.drop p, decide (b ≠ 0) = false from ⟨0, terminated, by simp⟩)
  obtain rfl : b = 0 := by simpa using stops
  exact .of_split split (nulFree_cstr _)

/-! ## The calls -/

/-- `strsep(&ptr, separators)` where `ptr` is not null: the field is at `ptr`, and `ptr` moves
behind it. -/
def strsepIn (separator : UInt8 → Bool) (buf : Bytes) (ptr : Nat) :
    Option (Bytes × Option Nat) := do
  let stop ← scanFrom (fun b => !separator b && b ≠ 0) buf ptr
  let b ← buf[stop]?
  if b = 0 then pure (buf, none)
  else
    let buf ← store buf stop 0
    pure (buf, some (stop + 1))

/-- `strtok` that goes on at `save`: the token, and where the next call goes on. -/
def strtokIn (separator : UInt8 → Bool) (buf : Bytes) (save : Nat) :
    Option (Bytes × Option Nat × Nat) := do
  let start ← scanFrom (fun b => separator b && b ≠ 0) buf save
  let b ← buf[start]?
  if b = 0 then pure (buf, none, start)
  else
    let stop ← scanFrom (fun b => !separator b && b ≠ 0) buf start
    let b ← buf[stop]?
    if b = 0 then pure (buf, some start, stop)
    else
      let buf ← store buf stop 0
      pure (buf, some start, stop + 1)

section Pieces

variable {c : UInt8}

/-- A NUL that is put behind the first piece of a string ends it there. -/
theorem Reads.cut (reads : Reads buf p (token ++ c :: rest)) :
    Reads (buf.set (p + token.length) 0) p token ∧
    Reads (buf.set (p + token.length) 0) (p + token.length + 1) rest := by
  have inside := reads.length_lt
  simp only [List.length_append, List.length_cons] at inside
  obtain ⟨behind, split⟩ := reads.split
  have clean := reads.2
  rw [NulFree, List.mem_append, List.mem_cons] at clean
  -- the NUL stands where the separator was
  have cut : (buf.set (p + token.length) 0).drop p = token ++ 0 :: (rest ++ 0 :: behind) := by
    rw [List.drop_set, if_neg (by omega), split, Nat.add_sub_cancel_left]
    simp
  have tail : (buf.set (p + token.length) 0).drop (p + token.length + 1) = rest ++ 0 :: behind := by
    rw [← List.drop_drop, drop_behind cut]
    rfl
  exact ⟨.of_split cut fun zero => clean (.inl zero), .of_split tail fun zero =>
    clean (.inr (.inr zero))⟩

theorem Reads.drop {front : Bytes} (reads : Reads buf p (front ++ text)) :
    Reads buf (p + front.length) text := by
  obtain ⟨behind, split⟩ := reads.split
  rw [List.append_assoc] at split
  exact .of_split (drop_behind split) fun zero => reads.2 (List.mem_append_right front zero)

/-- A loop that goes on while the test holds ends in the string or at its NUL. -/
theorem Reads.scan (reads : Reads buf p text) (test : UInt8 → Bool) :
    scanFrom (fun b => test b && b ≠ 0) buf p = some (p + (text.takeWhile test).length) ∧
      buf[p + (text.takeWhile test).length]? = some ((text.dropWhile test).headD 0) := by
  obtain ⟨behind, split⟩ := reads.split
  have stays : ∀ s : Bytes, NulFree s → (s ++ 0 :: behind).takeWhile (fun b => test b && b ≠ 0) =
      s.takeWhile test := by
    intro s clean
    induction s with
    | nil => simp
    | cons b s inductionHypothesis =>
      rw [NulFree, List.mem_cons, not_or] at clean
      cases passes : test b with
      | false => simp [passes]
      | true => simpa [passes, Ne.symm clean.1] using inductionHypothesis clean.2
  constructor
  · rw [scanFrom_eq ⟨0, by simp [split], by simp⟩, split, stays text reads.2]
  · have whole := List.takeWhile_append_dropWhile (p := test) (l := text)
    rw [← whole] at reads
    obtain ⟨behind, split⟩ := reads.drop.split
    rw [← List.head?_drop, split]
    cases text.dropWhile test <;> rfl

theorem Reads.getElem?_ne_zero (reads : Reads buf p (token ++ c :: rest)) : c ≠ 0 := by
  rintro rfl
  exact reads.2 (by simp)

end Pieces

/-! ## What the calls return -/

theorem strsepIn_last (reads : Reads buf p text) (last : (strsep separator text).2 = none) :
    strsepIn separator buf p = some (buf, none) ∧ Reads buf p (strsep separator text).1 := by
  have whole := List.takeWhile_append_dropWhile (p := (!separator ·)) (l := text)
  obtain ⟨scans, stops⟩ := reads.scan (!separator ·)
  cases behind : text.dropWhile (!separator ·) with
  | cons c rest => simp [strsep, behind] at last
  | nil =>
    rw [behind] at stops whole
    rw [List.append_nil] at whole
    refine ⟨?_, by rw [strsep, whole]; exact reads⟩
    simp only [strsepIn, scans, stops, Option.bind_eq_bind, Option.bind_some,
      List.headD_nil, if_true]
    rfl

theorem strsepIn_more (reads : Reads buf p text) (more : (strsep separator text).2 = some rest) :
    ∃ buf', strsepIn separator buf p =
      some (buf', some (p + (strsep separator text).1.length + 1)) ∧
      Reads buf' p (strsep separator text).1 ∧
        Reads buf' (p + (strsep separator text).1.length + 1) rest ∧
      buf'.take p = buf.take p := by
  have whole := List.takeWhile_append_dropWhile (p := (!separator ·)) (l := text)
  obtain ⟨scans, stops⟩ := reads.scan (!separator ·)
  cases behind : text.dropWhile (!separator ·) with
  | nil => simp [strsep, behind] at more
  | cons c tail =>
    obtain rfl : tail = rest := by simpa [strsep, behind] using more
    rw [behind] at stops whole
    rw [← whole] at reads
    obtain ⟨field, others⟩ := reads.cut
    have inside := reads.length_lt
    simp only [List.length_append, List.length_cons] at inside
    refine ⟨_, ?_, field, others, List.take_set_of_le (Nat.le_add_right _ _)⟩
    simp only [strsepIn, scans, stops, Option.bind_eq_bind, Option.bind_some, List.headD_cons,
      reads.getElem?_ne_zero, if_false]
    rw [store_eq (by omega), Option.bind_some]
    rfl

theorem strtokIn_none (reads : Reads buf p text) (none : strtok separator text = none) :
    ∃ save, strtokIn separator buf p = some (buf, .none, save) := by
  obtain ⟨scans, stops⟩ := reads.scan separator
  cases behind : text.dropWhile separator with
  | cons c rest => simp [strtok, behind] at none
  | nil =>
    rw [behind] at stops
    refine ⟨p + (text.takeWhile separator).length, ?_⟩
    simp only [strtokIn, scans, stops, Option.bind_eq_bind, Option.bind_some,
      List.headD_nil, if_true]
    rfl

/-- What stands before the token stays, and so does everything up to the place where the call
began. -/
theorem strtokIn_some (reads : Reads buf p text)
    (cuts : strtok separator text = some (token, rest)) :
    ∃ buf' save, strtokIn separator buf p =
      some (buf', some (p + (text.takeWhile separator).length), save) ∧
      Reads buf' p (text.takeWhile separator ++ token) ∧ Reads buf' save rest ∧
      p + (text.takeWhile separator).length + token.length ≤ save ∧
        buf'.take (p + 1) = buf.take (p + 1) := by
  have whole := List.takeWhile_append_dropWhile (p := separator) (l := text)
  obtain ⟨scans, stops⟩ := reads.scan separator
  cases text' : text.dropWhile separator with
  | nil => simp [strtok, text'] at cuts
  | cons b tail =>
    have pair : (b :: tail).takeWhile (!separator ·) = token ∧
        ((b :: tail).dropWhile (!separator ·)).tail = rest := by
      simpa [strtok, text'] using cuts
    obtain ⟨rfl, rfl⟩ := pair
    have solid : separator b = false := by
      have head := List.head_dropWhile_not separator (l := text) (by simp [text'])
      simpa [text'] using head
    have split := List.takeWhile_append_dropWhile (p := (!separator ·)) (l := b :: tail)
    rw [text'] at stops whole
    rw [← whole] at reads
    have nonzero := reads.getElem?_ne_zero
    obtain ⟨scans', stops'⟩ := reads.drop.scan (!separator ·)
    set lead := text.takeWhile separator
    set token := (b :: tail).takeWhile (!separator ·)
    have nonempty : 0 < token.length :=
      List.length_pos_of_mem (show b ∈ token by simp [token, solid])
    cases behind : (b :: tail).dropWhile (!separator ·) with
    | nil =>
      -- the token ends with the string: nothing is written
      rw [behind] at stops' split
      rw [List.append_nil] at split
      have inside := reads.length_lt
      refine ⟨buf, p + lead.length + token.length,
        ?_, by rw [split]; exact reads, ?_, Nat.le_refl _, rfl⟩
      · simp only [strtokIn, scans, stops, scans', stops', Option.bind_eq_bind, Option.bind_some,
          List.headD_cons,
          List.headD_nil, nonzero, if_true, if_false]
        rfl
      · rw [← split, ← List.append_nil token, ← List.append_assoc] at reads
        simpa [Nat.add_assoc] using reads.drop
    | cons c rest =>
      rw [behind] at stops' split
      rw [← split, ← List.append_assoc] at reads
      obtain ⟨front, others⟩ := reads.cut
      have inside := reads.length_lt
      simp only [List.length_append, List.length_cons, ← Nat.add_assoc] at inside front others
      refine ⟨_, p + lead.length + token.length + 1, ?_, front, others, Nat.le_succ _,
        List.take_set_of_le (by omega)⟩
      simp only [strtokIn, scans, stops, scans', stops', Option.bind_eq_bind, Option.bind_some,
        List.headD_cons,
        nonzero, reads.getElem?_ne_zero, if_false]
      rw [store_eq (by omega), Option.bind_some]
      rfl

/-! ## Argument vectors -/

/-- An element of `char *argv[]`. -/
inductive Slot where
  | unset
  | null
  | ptr (p : Nat)
  deriving DecidableEq, Repr

/-- A call with `argc` and `argv`, and the array that the pointers point into. -/
structure ArgCall where
  argc : Nat
  argv : List Slot
  buf : Bytes
  deriving DecidableEq, Repr

/-- `argv[]` with the pointers that are stored, and room for more. -/
def slots (places : List Nat) (room : Nat) : List Slot :=
  places.map .ptr ++ List.replicate room .unset

/-- The strings are where the pointers point, and end before `n`. -/
def Kept (buf : Bytes) (n : Nat) (places : List Nat) (arguments : List Bytes) : Prop :=
  List.Forall₂ (fun p argument => Reads buf p argument ∧ p + argument.length < n) places arguments

/-- The arguments, and a null pointer behind them. -/
structure ArgCall.Passes (call : ArgCall) (arguments : List Bytes) : Prop where
  argc : call.argc = arguments.length
  argv : ∃ places rest, call.argv = places.map .ptr ++ .null :: rest ∧
    List.Forall₂ (Reads call.buf) places arguments

section Vectors

variable {places : List Nat} {arguments arguments' : List Bytes} {room n' : Nat} {call : ArgCall}

theorem store_slots (places : List Nat) (room : Nat) (slot : Slot) :
    store (slots places (room + 1)) places.length slot =
    some (places.map .ptr ++ slot :: List.replicate room .unset) := by
  have inside : places.length < (slots places (room + 1)).length := by simp [slots]
  rw [store_eq inside, slots, List.set_append_right _ _ (by simp)]
  simp [List.replicate_succ]

theorem store_ptr (places : List Nat) (room p : Nat) :
    store (slots places (room + 1)) places.length (.ptr p) = some (slots (places ++ [p]) room) := by
  rw [store_slots]
  simp [slots]

theorem store_full (places : List Nat) (slot : Slot) :
    store (slots places 0) places.length slot = none := by
  simp [store, slots]

theorem Kept.frame (kept : Kept buf n places arguments) (same : buf'.take n = buf.take n)
    (more : n ≤ n') :
    Kept buf' n' places arguments :=
  List.Forall₂.imp (fun _ _ ⟨reads, inside⟩ =>
    ⟨reads.frame same inside, Nat.lt_of_lt_of_le inside more⟩) kept

theorem Kept.concat (kept : Kept buf n places arguments) (reads : Reads buf p text)
    (inside : p + text.length < n) :
    Kept buf n (places ++ [p]) (arguments ++ [text]) :=
  List.rel_append kept (.cons ⟨reads, inside⟩ .nil)

theorem Kept.passes (kept : Kept buf n places arguments) (room : Nat) :
    ArgCall.Passes ⟨places.length, places.map .ptr ++ .null :: List.replicate room .unset,
      buf⟩ arguments :=
  ⟨kept.length_eq, places, _, rfl, List.Forall₂.imp (fun _ _ both => both.1) kept⟩

/-- A call passes one list of arguments. -/
theorem ArgCall.Passes.unique (passes : call.Passes arguments) (passes' : call.Passes arguments') :
    arguments = arguments' := by
  obtain ⟨argc, places, rest, argv, reads⟩ := passes
  obtain ⟨argc', places', rest', argv', reads'⟩ := passes'
  -- `argc` says where the null pointer is, so the pointers agree, and a pointer has one string
  have lengths : (places.map Slot.ptr).length = (places'.map Slot.ptr).length := by
    simp only [List.length_map, reads.length_eq, reads'.length_eq, ← argc, ← argc']
  obtain ⟨pointers, -⟩ := List.append_inj (argv.symm.trans argv') lengths
  obtain rfl : places = places' :=
    List.map_injective_iff.mpr (fun _ _ same => Slot.ptr.inj same) pointers
  clear argc argc' argv argv' lengths pointers
  induction reads generalizing arguments' with
  | nil =>
    cases reads'
    rfl
  | cons first _ inductionHypothesis =>
    cases reads' with
    | cons first' others => rw [first.unique first', inductionHypothesis others]

end Vectors

end Apue.Base
