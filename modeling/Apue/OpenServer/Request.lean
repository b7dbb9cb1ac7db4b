import Apue.OpenServer.Conversation
import Apue.Opend.Request

/-! # What `open_server` opens

`buf_args` of `open_server` cuts with `strsep`, so every white character of the request ends a field
and the number of fields tells how many there are.  `csopen` puts two of its own around the name:
three fields mean that the name has none.  The array `argv[]` is taken to be large enough;
`client_args` reads the fields as `cli_args` of `opend` does.
-/

namespace Apue.OpenServer

open Apue.Base
open Apue.Opend

/-- The calls of `strsep` return the fields, and the last of them the null pointer. -/
theorem bufArgsLoop_eq {fuel : Nat} {s : Bytes} (enough : s.length < fuel) (argv : List Bytes) :
    bufArgsLoop fuel (some s) argv = argv ++ s.splitOnP white := by
  induction fuel generalizing s argv with
  | zero => omega
  | succ fuel inductionHypothesis =>
    have turn : bufArgsLoop (fuel + 1) (some s) argv =
        bufArgsLoop fuel (strsep white s).2 (argv ++ [(strsep white s).1]) := rfl
    rw [splitOnP_eq_strsep s, turn]
    cases more : (strsep white s).2 with
    | none => cases fuel <;> rfl
    | some rest =>
      have shorter := strsep_shorter more
      rw [inductionHypothesis (by omega)]
      simp

theorem bufArgs_eq (buf : Bytes) (optfunc : OptFunc) (globals : Globals) :
    bufArgs buf optfunc globals = optfunc ((cstr buf).splitOnP white) globals := by
  have enough : (cstr buf).length < strlen buf + 1 := Nat.lt_succ_self _
  rw [bufArgs, bufArgsLoop_eq enough, List.nil_append]

section Parsed

variable {name : Bytes} {oflag : Int}

/-- The fields of a request: those of the name between the command and the number. -/
theorem fields_csopenRequest (clean : NulFree name) :
    (cstr (csopenRequest name oflag)).splitOnP white = clOpen :: name.splitOnP white ++
    [decimalInt oflag] := by
  have solid : clOpen.all (fun b => white b = false) = true := by decide
  have command : clOpen.splitOnP white = [clOpen] :=
    List.splitOnP_eq_singleton fun b member =>
      of_decide_eq_true (List.all_eq_true.mp solid b member)
  rw [cstr_csopenRequest clean, List.splitOnP_append_cons _ _ (by decide),
    List.splitOnP_append_cons _ _ (by decide),
    List.splitOnP_eq_singleton (solid_decimalInt oflag), command]
  rfl

/-- What becomes of the arguments: the name as a whole, or the usage. -/
theorem clientArgs_csopenRequest (clean : NulFree name) (lower : -2 ^ 31 ≤ oflag)
    (upper : oflag < 2 ^ 31)
    (globals : Globals) : bufArgs (csopenRequest name oflag) cliArgs globals =
      if name.any white then (-1, { globals with errmsg := usage })
      else (0, { globals with pathname := name, oflag := oflag }) := by
  rw [bufArgs_eq, fields_csopenRequest clean]
  split
  · rename_i spaced
    obtain ⟨arg0, arg1, arg2, three, _⟩ | refused :=
      cliArgs_cases (clOpen :: name.splitOnP white ++ [decimalInt oflag])
    · -- with a separator in the name there are at least four fields
      have count := congrArg List.length three
      have some : 0 < name.countP white := by
        rw [List.countP_pos_iff]
        exact List.any_eq_true.mp spaced
      simp only [List.length_append, List.length_cons, List.length_nil, length_splitOnP] at count
      omega
    · exact refused globals
  · rename_i solid
    rw [List.splitOnP_eq_singleton (by simpa using solid)]
    simp [cliArgs, strEq, atoi_decimalInt lower upper]

end Parsed

variable {FileSystem File : Type}

/-- The server answers with an error and opens nothing when the name has white space, and otherwise
it opens the very name and flags that the client asked for. -/
theorem request_opens_exactly (kernel : Kernel FileSystem File) (files : FileSystem) (uid : Nat)
    (globals : Globals)
    {name : Bytes} (clean : NulFree name) {oflag : Int} (lower : -2 ^ 31 ≤ oflag)
    (upper : oflag < 2 ^ 31) :
    let handled := handleRequest bufArgs kernel files (csopenRequest name oflag) uid globals
    if name.any white then handled.attempt = none ∧ handled.answer.IsError
    else handled.attempt = some (name, oflag) := by
  intro handled
  have parses := clientArgs_csopenRequest clean lower upper globals
  by_cases spaced : name.any white
  · have refuses : handled.attempt = none ∧ handled.answer.IsError := by
      rw [if_pos spaced] at parses
      simp only [handled, handleRequest, csopenRequest_terminated, parses, ne_eq,
        not_true, if_false,
        show (-1 : Int) < 0 by decide, if_true]
      exact ⟨trivial, sendErr_isError _ _⟩
    rwa [if_pos spaced]
  · have opens : handled.attempt = some (name, oflag) := by
      rw [if_neg spaced] at parses
      simp only [handled, handleRequest, csopenRequest_terminated, parses, ne_eq, not_true,
        Int.lt_irrefl, if_false]
      cases kernel.openFile files name oflag <;> rfl
    rwa [if_neg spaced]

/-- Only `f` can be opened. -/
def oneFile : Kernel Unit Nat :=
  ⟨fun _ name _ => if name = ascii "f" then .ok 7 else .error 2, fun _ => ascii "No such file or directory"⟩

/-- The empty name, which the server tries to open. -/
theorem request_opens_exactly_empty :
    (handleRequest bufArgs oneFile () (csopenRequest [] (-1)) 1 {}).attempt = some ([], -1) := by
  have clean : NulFree [] := by decide
  exact request_opens_exactly oneFile () 1 {} clean (show -2 ^ 31 ≤ (-1 : Int) by omega) (by omega)

end Apue.OpenServer
