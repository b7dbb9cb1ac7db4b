import Apue.Opend.Arguments
import Apue.OpenServer.Request

/-! # The argument vector of `open_server`

`buf_args` of `open_server` allocates a byte for each character of the request, one for its NUL and
eight for the null pointer, and stores a pointer of eight bytes for each field.  Pointers that are
stored outside the block end the run here.
-/

namespace Apue.OpenServer.InPlace

open Apue.Base
open Apue.Opend (white OptFunc Globals)
open Apue.Opend.InPlace (Result)

variable {buf text : Bytes} {places : List Nat} {arguments : List Bytes} {p room fuel : Nat}
    {malloc : Nat → Bool}

/-! ## The code -/

/-- The pointers that lie inside a block of that many bytes. -/
def block (bytes : Nat) : List Slot := List.replicate (bytes / 8) .unset

/-- `while ((sub_str = strsep(&ptr, WHITE_CHARS)) != NULL) argv[argc++] = sub_str`, and the null
pointer. -/
def bufArgsLoop : Nat → Bytes → Option Nat → List Slot → Nat → Option ArgCall
  | fuel + 1, buf, some ptr, argv, argc => do
    let (buf, next) ← strsepIn white buf ptr
    let argv ← store argv argc (.ptr ptr)
    bufArgsLoop fuel buf next argv (argc + 1)
  | _, buf, _, argv, argc => do
    let argv ← store argv argc .null
    pure ⟨argc, argv, buf⟩

/-- `none` where a pointer is stored outside the block; `malloc` tells whether there is one. -/
def bufArgs (malloc : Nat → Bool) (buf : Bytes) (optfunc : ArgCall → Int) : Option Result :=
  if malloc (strlen buf + 1 + 8) then do
    let call ← bufArgsLoop (strlen buf + 1) buf (some 0) (block (strlen buf + 1 + 8)) 0
    pure ⟨optfunc call, [call]⟩
  else some ⟨-1, []⟩

/-! ## The pointers that are stored -/

theorem bufArgsLoop_null (fuel : Nat) (argv : List Slot) (argc : Nat) :
    bufArgsLoop fuel buf none argv argc = (store argv argc .null).map fun argv =>
      ⟨argc, argv, buf⟩ := by
  cases fuel with
  | zero => cases stored : store argv argc .null <;> simp [bufArgsLoop, stored]
  | succ fuel => cases stored : store argv argc .null <;> simp [bufArgsLoop, stored]

/-- The arguments and the null pointer have room for so many pointers, or one is stored outside. -/
inductive Stored (size : Nat) (arguments : List Bytes) : Option ArgCall → Prop where
  | inside {call : ArgCall} (room : arguments.length < size) (passes : call.Passes arguments) :
    Stored size arguments (some call)
  | outside (full : size ≤ arguments.length) : Stored size arguments none

/-- Behind the last field there is one pointer more to store. -/
theorem stored_null (kept : Kept buf p places arguments) (room fuel : Nat) :
    Stored (places.length + room) arguments
    (bufArgsLoop fuel buf none (slots places room) places.length) := by
  have lengths := kept.length_eq
  rw [bufArgsLoop_null]
  cases room with
  | zero =>
    rw [store_full]
    exact .outside (by omega)
  | succ room =>
    rw [store_slots]
    exact .inside (by omega) (kept.passes room)

theorem bufArgsLoop_stored (kept : Kept buf p places arguments) (reads : Reads buf p text)
    (enough : text.length < fuel) :
    Stored (places.length + room) (arguments ++ text.splitOnP white)
      (bufArgsLoop fuel buf (some p) (slots places room) places.length) := by
  induction fuel generalizing buf p places arguments text room with
  | zero => omega
  | succ fuel inductionHypothesis =>
    have lengths := kept.length_eq
    have fields : text.splitOnP white = _ := splitOnP_eq_strsep text
    -- the field is found in its place whether or not it is the last one
    obtain ⟨buf', next, takes, kept', field, last, others⟩ :
        ∃ buf' next, strsepIn white buf p = some (buf', next) ∧
        Kept buf' (p + (strsep white text).1.length + 1) places arguments ∧
          Reads buf' p (strsep white text).1 ∧
          ((strsep white text).2 = none → next = none) ∧
          ∀ rest, (strsep white text).2 = some rest →
            next = some (p + (strsep white text).1.length + 1) ∧
            Reads buf' (p + (strsep white text).1.length + 1) rest := by
      cases more : (strsep white text).2 with
      | none =>
        obtain ⟨takes, field⟩ := strsepIn_last reads more
        exact ⟨buf, none, takes, kept.frame rfl (by omega), field, by simp, by simp⟩
      | some rest =>
        obtain ⟨buf', takes, field, others, same⟩ := strsepIn_more reads more
        refine ⟨buf', _, takes, kept.frame same (by omega), field, by simp, ?_⟩
        rintro _ ⟨⟩
        exact ⟨rfl, others⟩
    have grown := kept'.concat field (Nat.lt_succ_self _)
    -- without room this pointer is stored outside, else the loop goes on
    cases room with
    | zero =>
      simp only [bufArgsLoop, takes, store_full, Option.bind_eq_bind, Option.bind_some,
        Option.bind_none]
      exact .outside (by simp only [fields, List.length_append, List.length_cons]; omega)
    | succ room =>
      simp only [bufArgsLoop, takes, store_ptr, Option.bind_eq_bind, Option.bind_some]
      have length : (places ++ [p]).length = places.length + 1 := by simp
      rw [← length, show places.length + (room + 1) = (places ++ [p]).length + room by omega]
      cases more : (strsep white text).2 with
      | none =>
        rw [more] at fields
        rw [last more, fields]
        exact stored_null grown room fuel
      | some tail =>
        obtain ⟨goesOn, reads'⟩ := others tail more
        rw [more] at fields
        have shorter := strsep_shorter more
        have stored : Stored ((places ++ [p]).length + room) _ _ :=
          inductionHypothesis grown reads' (by omega)
        rw [List.append_assoc, List.singleton_append] at stored
        rw [goesOn, fields, Option.map_some, Option.getD_some]
        exact stored

/-! ## The bound -/

/-- The fields of the request, one pointer each and the null pointer, in the bytes that are
allocated. -/
theorem bufArgs_stored (terminated : 0 ∈ buf) :
    Stored ((strlen buf + 1 + 8) / 8) ((cstr buf).splitOnP white)
    (bufArgsLoop (strlen buf + 1) buf (some 0) (block (strlen buf + 1 + 8)) 0) := by
  have reads : Reads buf 0 (cstr buf) := reads_cstr (p := 0) terminated
  have enough : (cstr buf).length < strlen buf + 1 := Nat.lt_succ_self _
  have none : Kept buf 0 [] [] := .nil
  have stored : Stored (([] : List Nat).length + (strlen buf + 1 + 8) / 8) _ _ :=
    bufArgsLoop_stored none reads enough
  simpa [slots, block] using stored

/-- Where the pointers fit, the arguments at the value level are those that `argv[]` points to. -/
theorem bufArgs_refines (terminated : 0 ∈ buf) {optfunc : ArgCall → Int} {result : Result}
    (allocates : ∀ size, malloc size)
    (returns : bufArgs malloc buf optfunc = some result) (onFields : OptFunc) (globals : Globals) :
    ∃ call arguments,
      result = ⟨optfunc call, [call]⟩ ∧ call.Passes arguments ∧
        OpenServer.bufArgs buf onFields globals = onFields arguments globals := by
  have stored := bufArgs_stored terminated
  rw [bufArgs, if_pos (allocates _)] at returns
  cases outcome : bufArgsLoop (strlen buf + 1) buf (some 0) (block (strlen buf + 1 + 8)) 0 with
  | none => simp [outcome] at returns
  | some call =>
    rw [outcome] at stored returns
    cases stored with
    | inside _ passes =>
      cases returns
      exact ⟨call, _, rfl, passes, bufArgs_eq buf onFields globals⟩

/-- Every pointer of the loop has its place in the block when all fields of the request and the null
pointer have. -/
theorem isSome_bufArgsLoop (terminated : 0 ∈ buf) :
    (bufArgsLoop (strlen buf + 1) buf (some 0) (block (strlen buf + 1 + 8)) 0).isSome ↔
      8 * ((cstr buf).countP white + 2) ≤ strlen buf + 1 + 8 := by
  have stored := bufArgs_stored terminated
  have fields : ((cstr buf).splitOnP white).length = _ := length_splitOnP (cstr buf)
  cases outcome : bufArgsLoop (strlen buf + 1) buf (some 0) (block (strlen buf + 1 + 8)) 0 with
  | none =>
    rw [outcome] at stored
    cases stored with
    | outside full => simp; omega
  | some call =>
    rw [outcome] at stored
    cases stored with
    | inside room _ => simp; omega

/-- What a conversation is asked for is that the run here does not end. -/
theorem inside_iff (buf : Bytes) (optfunc : ArgCall → Int) :
    Inside buf ↔ (buf.getLast? = some 0 → (bufArgs (fun _ => true) buf optfunc).isSome) := by
  refine forall_congr' fun terminated => ?_
  rw [← isSome_bufArgsLoop (List.mem_of_getLast? terminated), bufArgs]
  cases bufArgsLoop (strlen buf + 1) buf (some 0) (block (strlen buf + 1 + 8)) 0 <;> simp

/-- No pointer is stored outside the block exactly when it is as long as the pointers of all fields,
one more than there is white space in the request, and the null pointer. -/
theorem bufArgs_inside_iff (terminated : buf.getLast? = some 0) (optfunc : ArgCall → Int) :
    (bufArgs malloc buf optfunc).isSome ↔
      malloc (strlen buf + 1 + 8) = false ∨ 8 * ((cstr buf).countP white + 2) ≤ strlen buf +
        1 + 8 := by
  have fits := isSome_bufArgsLoop (List.mem_of_getLast? terminated)
  rw [bufArgs]
  cases allocates : malloc (strlen buf + 1 + 8) with
  | false => simp
  | true =>
    rw [← fits]
    cases bufArgsLoop (strlen buf + 1) buf (some 0) (block (strlen buf + 1 + 8)) 0 <;> simp

/-- A request with a path of 16 bytes; its four pointers fit exactly. -/
def longPath : Bytes := ascii "open /tmp/01234567890 0" ++ [0]

theorem bufArgs_inside_iff_longPath : (bufArgs (fun _ => true) longPath fun _ => 0).isSome = true :=
  (bufArgs_inside_iff (show longPath.getLast? = some 0 by decide) fun _ => 0).mpr (.inr (by decide))

/-- The request for the file "a": four pointers go into 17 bytes. -/
theorem bufArgs_overruns : (ascii "open a 0" ++ [0]).getLast? = some 0 ∧
    bufArgs (fun _ => true) (ascii "open a 0" ++ [0]) (fun _ => 0) = none := by decide

end Apue.OpenServer.InPlace
