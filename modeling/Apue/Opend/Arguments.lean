import Apue.Base.InPlace
import Apue.Opend.Request

/-! # The argument vector of `buf_args`

`buf_args` of the library on the array it cuts up and on `argv[MAXARGC]`, every access checked.  The
first token is looked for but `argv[0]` is set to `buf`, so an argument in front of which there is
white space begins with it; the other arguments are the words of the buffer.
-/

namespace Apue.Opend.InPlace

open Apue.Base

variable {buf text token : Bytes} {places : List Nat} {arguments : List Bytes}
    {save room fuel : Nat}

/-! ## The code -/

/-- What `buf_args` returns, and its calls of `optfunc`. -/
structure Result where
  value : Int
  calls : List ArgCall
  deriving DecidableEq, Repr

/-- The calls of `strtok` behind the first; `some none` for the return in the middle of them. -/
def bufArgsLoop : Nat → Bytes → Nat → List Slot → Nat → Option (Option ArgCall)
  | 0, _, _, _, _ => none
  | fuel + 1, buf, save, argv, argc => do
    let (buf, ptr, save) ← strtokIn white buf save
    match ptr with
    | some ptr =>
      let argc := argc + 1
      if argc ≥ maxargc - 1 then pure none
      else
        let argv ← store argv argc (.ptr ptr)
        bufArgsLoop fuel buf save argv argc
    | none =>
      let argc := argc + 1
      let argv ← store argv argc .null
      pure (some ⟨argc, argv, buf⟩)

def bufArgs (buf : Bytes) (optfunc : ArgCall → Int) : Option Result := do
  let (buf, token, save) ← strtokIn white buf 0
  match token with
  | none => pure ⟨-1, []⟩
  | some _ =>
    let argv ← store (List.replicate maxargc .unset) 0 (.ptr 0)
    match ← bufArgsLoop (buf.length + 1) buf save argv 0 with
    | none => pure ⟨-1, []⟩
    | some call => pure ⟨optfunc call, [call]⟩

/-! ## The vector -/

/-- What becomes of the arguments: they are passed, or there are too many. -/
inductive Parsed (arguments : List Bytes) : Option ArgCall → Prop where
  | calls {call : ArgCall} (few : arguments.length < maxargc) (passes : call.Passes arguments) : Parsed arguments (some call)
  | refuses (many : maxargc ≤ arguments.length) : Parsed arguments none

/-- What is left of the buffer is cut into its words; the strings found before stay. -/
theorem bufArgsLoop_eq (kept : Kept buf (save + 1) places arguments) (reads : Reads buf save text)
    (first : places ≠ [])
    (size : places.length + room = maxargc) (nonempty : 0 < room) (enough : text.length < fuel) :
    ∃ result, bufArgsLoop fuel buf save (slots places room) (places.length - 1) = some result ∧
      Parsed (arguments ++ words white text) result := by
  induction fuel generalizing buf save places arguments text room with
  | zero => omega
  | succ fuel inductionHypothesis =>
    have last : places.length - 1 + 1 = places.length :=
      Nat.succ_pred_eq_of_pos (List.length_pos_iff.mpr first)
    have lengths := kept.length_eq
    obtain ⟨room, rfl⟩ := Nat.exists_eq_add_one.mpr nonempty
    cases cut : strtok white text with
    | none =>
      obtain ⟨save', takes⟩ := strtokIn_none reads cut
      rw [strtok_none cut, List.append_nil]
      refine ⟨some _, ?_, .calls (by omega) (kept.passes room)⟩
      simp only [bufArgsLoop, takes, Option.bind_eq_bind, Option.bind_some, last, store_slots]
      rfl
    | some pair =>
      obtain ⟨token, rest⟩ := pair
      obtain ⟨split, shorter⟩ := strtok_some cut
      obtain ⟨buf', save', takes, here, next, behind, same⟩ := strtokIn_some reads cut
      -- the test of `argc` comes before the store, with the null pointer still to come
      by_cases full : places.length ≥ maxargc - 1
      · refine ⟨none, ?_, .refuses ?_⟩
        · simp only [bufArgsLoop, takes, Option.bind_eq_bind, Option.bind_some, last, full, if_true]
          rfl
        · simp only [split, List.length_append, List.length_cons]
          omega
      · have kept' : Kept buf' (save' + 1) places arguments := kept.frame same (by omega)
        have grown := kept'.concat here.drop (by omega)
        obtain ⟨result, loops, parsed⟩ := inductionHypothesis grown next (by simp)
          (by simp only [List.length_append, List.length_singleton]; omega)
            (show 0 < room by omega) (by omega)
        refine ⟨result, ?_, by simpa [split] using parsed⟩
        simp only [bufArgsLoop, takes, Option.bind_eq_bind, Option.bind_some, last, full,
          if_false, store_ptr]
        simpa using loops

/-- Every access stays in its array; `argv[0]` begins where the buffer begins. -/
theorem bufArgs_parsed (terminated : 0 ∈ buf) (optfunc : ArgCall → Int) :
    (Parsable buf ∧ ∃ token rest call, words white (cstr buf) = token :: rest ∧
      bufArgs buf optfunc = some ⟨optfunc call, [call]⟩ ∧
        call.Passes (((cstr buf).takeWhile white ++ token) :: rest)) ∨
      ¬Parsable buf ∧ bufArgs buf optfunc = some ⟨-1, []⟩ := by
  have reads : Reads buf 0 (cstr buf) := reads_cstr (p := 0) terminated
  cases cut : strtok white (cstr buf) with
  | none =>
    obtain ⟨save, takes⟩ := strtokIn_none reads cut
    refine .inr ⟨fun parsable => parsable.1 (strtok_none cut), ?_⟩
    simp only [bufArgs, takes, Option.bind_eq_bind, Option.bind_some]
    rfl
  | some pair =>
    obtain ⟨token, rest⟩ := pair
    obtain ⟨split, shorter⟩ := strtok_some cut
    obtain ⟨buf', save, takes, first, next, behind, _⟩ := strtokIn_some reads cut
    -- `argv[0]` is the buffer itself, so what stands before the first token belongs to it
    have kept : Kept buf' (save + 1) [0] [(cstr buf).takeWhile white ++ token] :=
      .cons ⟨first, by rw [List.length_append]; omega⟩ .nil
    have enough : rest.length < buf'.length + 1 := by
      have inside := next.length_lt
      omega
    obtain ⟨result, loops, parsed⟩ :=
      bufArgsLoop_eq kept next (by simp) (show [0].length + (maxargc - 1) = maxargc from rfl)
      (by decide) enough
    have loops : bufArgsLoop (buf'.length + 1) buf' save (slots [0] (maxargc - 1)) 0 =
      some result := loops
    have initial : store (List.replicate maxargc Slot.unset) 0 (.ptr 0) =
        some (slots [0] (maxargc - 1)) :=
      store_ptr [] (maxargc - 1) 0
    rw [Parsable, split]
    cases parsed with
    | calls few passes =>
      refine .inl ⟨⟨by simp, few⟩, token, words white rest, _, rfl, ?_, passes⟩
      simp only [bufArgs, takes, Option.bind_eq_bind, Option.bind_some, initial, loops]
      rfl
    | refuses many =>
      refine .inr ⟨fun parsable => absurd parsable.2 (by simpa using many), ?_⟩
      simp only [bufArgs, takes, Option.bind_eq_bind, Option.bind_some, initial, loops]
      rfl

/-- What the function is for: one call with the words of the buffer, if they are at least one and
fit. -/
def Tokenises (buf : Bytes) (optfunc : ArgCall → Int) (result : Result) : Prop :=
  if 1 ≤ (words white (cstr buf)).length ∧ (words white (cstr buf)).length ≤ maxargc - 1
  then ∃ call, result = ⟨optfunc call, [call]⟩ ∧
    call.Passes (words white (cstr buf)) else result = ⟨-1, []⟩

theorem parsable_iff :
    Parsable buf ↔ 1 ≤ (words white (cstr buf)).length ∧
    (words white (cstr buf)).length ≤ maxargc - 1 := by
  rw [Parsable, ← List.length_pos_iff]
  simp only [maxargc]
  omega

/-- The arguments at the value level are those that `argv[]` points to. -/
theorem bufArgs_refines (terminated : 0 ∈ buf) (optfunc : ArgCall → Int) (onWords : OptFunc)
    (globals : Globals) :
    ∃ result, bufArgs buf optfunc = some result ∧
      (result.calls = [] ∧ Opend.bufArgs buf onWords globals = (-1, globals) ∨
        ∃ call arguments, result.calls = [call] ∧ call.Passes arguments ∧
          Opend.bufArgs buf onWords globals = onWords arguments globals) := by
  obtain ⟨parsable, token, rest, call, split, runs, passes⟩ | ⟨refused, runs⟩ :=
    bufArgs_parsed terminated optfunc
  · obtain ⟨token', rest', split', calls⟩ := bufArgs_of_parsable parsable
    rw [split, List.cons.injEq] at split'
    obtain ⟨rfl, rfl⟩ := split'
    exact ⟨_, runs, .inr ⟨call, _, rfl, passes, calls onWords globals⟩⟩
  · exact ⟨_, runs, .inl ⟨rfl, bufArgs_of_not_parsable refused onWords globals⟩⟩

/-- No access outside an array, and the function does what it is for exactly when the buffer does
not begin with white space, or has no word or too many. -/
theorem bufArgs_tokenises_iff (terminated : 0 ∈ buf) (optfunc : ArgCall → Int) :
    ∃ result, bufArgs buf optfunc = some result ∧ (Tokenises buf optfunc result ↔
      (cstr buf).head?.all (!white ·) ∨ words white (cstr buf) = [] ∨
        maxargc ≤ (words white (cstr buf)).length) := by
  obtain ⟨parsable, token, rest, call, split, runs, passes⟩ | ⟨refused, runs⟩ :=
    bufArgs_parsed terminated optfunc
  · refine ⟨_, runs, ?_⟩
    -- the first argument is the first word when nothing stands before it
    have front : (cstr buf).takeWhile white = [] ↔ (cstr buf).head?.all (!white ·) = true := by
      cases cstr buf with
      | nil => simp
      | cons b s => simp [List.takeWhile_cons]
    rw [Tokenises, if_pos (parsable_iff.mp parsable), ← front, split]
    constructor
    · intro ⟨other, same, passes'⟩
      rw [Result.mk.injEq, List.cons.injEq] at same
      have arguments := passes.unique (same.2.1 ▸ passes')
      simp only [List.cons.injEq, and_true, List.append_left_eq_self] at arguments
      exact .inl arguments
    · intro holds
      obtain empty | none | many := holds
      · exact ⟨call, rfl, by rw [empty] at passes; exact passes⟩
      · cases none
      · exact absurd parsable.2 (by rw [split]; omega)
  · refine ⟨_, runs, ?_⟩
    rw [Tokenises, if_neg (mt parsable_iff.mpr refused)]
    have outside : words white (cstr buf) = [] ∨ maxargc ≤ (words white (cstr buf)).length := by
      by_cases none : words white (cstr buf) = []
      · exact .inl none
      · exact .inr (Nat.le_of_not_lt fun few => refused ⟨none, few⟩)
    exact ⟨fun _ => .inr outside, fun _ => rfl⟩

theorem bufArgs_tokenises_iff_open : ∃ result,
    bufArgs (ascii "open a 0" ++ [0]) (fun call => call.argc) = some result ∧
      Tokenises (ascii "open a 0" ++ [0]) (fun call => call.argc) result := by
  obtain ⟨result, runs, tokenises⟩ :=
    bufArgs_tokenises_iff (show 0 ∈ ascii "open a 0" ++ [0] by decide) fun call => (call.argc : Int)
  exact ⟨result, runs, tokenises.mpr (.inl (by decide))⟩

/-- The call of `optfunc` for the buffer " open a 0". -/
def leadingBlank : ArgCall where
  argc := 3
  argv := [.ptr 0, .ptr 6, .ptr 8, .null] ++ List.replicate 46 .unset
  buf := ascii " open" ++ 0 :: ascii "a" ++ 0 :: ascii "0" ++ [0]

/-- The first argument is " open", blank and all. -/
theorem bufArgs_keeps_blank : bufArgs (ascii " open a 0" ++ [0]) (fun _ => 0) = some ⟨0, [leadingBlank]⟩ ∧
    ¬Tokenises (ascii " open a 0" ++ [0]) (fun _ => 0) ⟨0, [leadingBlank]⟩ := by
  have words : words white (cstr (ascii " open a 0" ++ [0])) = [ascii "open", ascii "a", ascii "0"] := by decide
  have passed : leadingBlank.Passes [ascii " open", ascii "a", ascii "0"] :=
    ⟨rfl, [0, 6, 8], _, rfl,
      .cons ⟨by decide, by decide⟩
      (.cons ⟨by decide, by decide⟩ (.cons ⟨by decide, by decide⟩ .nil))⟩
  refine ⟨by decide, ?_⟩
  rw [Tokenises, words, if_pos (by decide)]
  intro ⟨call, same, passes⟩
  obtain rfl : leadingBlank = call := by
    rw [Result.mk.injEq, List.cons.injEq] at same
    exact same.2.1
  exact absurd (passed.unique passes) (by decide)

end Apue.Opend.InPlace
