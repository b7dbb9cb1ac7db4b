import Apue.Opend.Protocol

/-! # Requests of `opend`

`buf_args` of the library cuts a request at white space with `strtok`.  It fails when it finds no
argument or too many, and then `errmsg` still holds the message of an earlier request, of whatever
client.  And since `strtok` skips white space, the name that the server opens is the one the client
asked for without the white space around it.

A message that has been sent is also given to `log_msg`, as the format.  A conversion in it, which a
client can put there with the name of a file, makes the output undefined, and nothing is said about
the server from then on.
-/

namespace Apue.Opend

open Apue.Base

def maxargc : Nat := 50

/-- The calls of `strtok` behind the first; every token takes a byte, so `rest.length + 1` turns are
enough. -/
def bufArgsLoop : Nat → Bytes → List Bytes → Option (List Bytes)
  | 0, _, _ => none
  | fuel + 1, rest, argv =>
    match strtok white rest with
    | none => some argv
    | some (ptr, rest) =>
      if argv.length ≥ maxargc - 1 then none else bufArgsLoop fuel rest (argv ++ [ptr])

/-- `argv[0]` is `buf` itself, not the first token: it starts with the white space before it. -/
def bufArgs (buf : Bytes) (optfunc : OptFunc) (globals : Globals) : Int × Globals :=
  match strtok white (cstr buf) with
  | none => (-1, globals)
  | some (token, rest) =>
    match bufArgsLoop (strlen buf + 1) rest [(cstr buf).takeWhile white ++ token] with
    | none => (-1, globals)
    | some argv => optfunc argv globals

/-! ## The arguments are the words of the request -/

theorem bufArgsLoop_eq {fuel : Nat} {rest : Bytes} {argv : List Bytes} (enough : rest.length < fuel)
    (room : argv.length < maxargc) :
    bufArgsLoop fuel rest argv =
      if argv.length + (words white rest).length <
        maxargc then some (argv ++ words white rest) else none := by
  induction fuel generalizing rest argv with
  | zero => omega
  | succ fuel inductionHypothesis =>
    cases cut : strtok white rest with
    | none => simp [bufArgsLoop, cut, strtok_none cut, room]
    | some pair =>
      obtain ⟨ptr, rest'⟩ := pair
      obtain ⟨split, shorter⟩ := strtok_some cut
      simp only [bufArgsLoop, cut, split, List.length_cons]
      by_cases full : argv.length ≥ maxargc - 1
      · rw [if_pos full, if_neg (by simp only [maxargc] at full ⊢; omega)]
      · have room' : (argv ++ [ptr]).length < maxargc := by
          simp only [List.length_append, List.length_singleton, maxargc] at full ⊢
          omega
        rw [if_neg full, inductionHypothesis (by omega) room']
        simp [Nat.add_assoc, Nat.add_comm]

/-- The words of a request are few enough for `argv[]`, and there is one. -/
def Parsable (buf : Bytes) : Prop :=
  words white (cstr buf) ≠ [] ∧ (words white (cstr buf)).length < maxargc

instance (buf : Bytes) : Decidable (Parsable buf) := inferInstanceAs (Decidable (_ ∧ _))

theorem bufArgs_of_parsable {buf : Bytes} (parsable : Parsable buf) : ∃ token rest,
    words white (cstr buf) = token :: rest ∧ ∀ optfunc globals,
      bufArgs buf optfunc globals =
        optfunc (((cstr buf).takeWhile white ++ token) :: rest) globals := by
  obtain ⟨nonempty, few⟩ := parsable
  cases cut : strtok white (cstr buf) with
  | none => exact absurd (strtok_none cut) nonempty
  | some pair =>
    obtain ⟨token, rest⟩ := pair
    obtain ⟨split, shorter⟩ := strtok_some cut
    refine ⟨token, words white rest, split, fun optfunc globals => ?_⟩
    have enough : rest.length < strlen buf + 1 := by
      rw [strlen]
      omega
    rw [split, List.length_cons] at few
    simp only [bufArgs, cut, bufArgsLoop_eq enough (show [_].length < maxargc by simp [maxargc]),
      List.length_singleton]
    rw [if_pos (by omega)]
    rfl

theorem bufArgs_of_not_parsable {buf : Bytes} (refused : ¬Parsable buf) (optfunc : OptFunc)
    (globals : Globals) :
    bufArgs buf optfunc globals = (-1, globals) := by
  cases cut : strtok white (cstr buf) with
  | none => simp [bufArgs, cut]
  | some pair =>
    obtain ⟨token, rest⟩ := pair
    obtain ⟨split, shorter⟩ := strtok_some cut
    have enough : rest.length < strlen buf + 1 := by
      rw [strlen]
      omega
    have many : ¬1 + (words white rest).length < maxargc := by
      intro few
      apply refused
      rw [Parsable, split, List.length_cons]
      exact ⟨by simp, by omega⟩
    simp only [bufArgs, cut, bufArgsLoop_eq enough (show [_].length < maxargc by simp [maxargc]),
      List.length_singleton]
    rw [if_neg many]

/-! ## What earlier requests leave behind -/

section History

variable {FileSystem File : Type}

/-- A request with the state of the file system it was handled in. -/
structure Query (FileSystem : Type) where
  files : FileSystem
  buf : Bytes
  uid : Nat

def Query.handle (kernel : Kernel FileSystem File) (request : Query FileSystem)
    (globals : Globals) : Handled File :=
  handleRequest bufArgs kernel request.files request.buf request.uid globals

/-- `log_msg(errmsg)`. -/
def logMsg (errmsg : Bytes) : Option Unit := (formatted (cstr errmsg)).map fun _ => ()

/-- The variables that a request leaves, if `log_msg` comes back. -/
def Query.serve (kernel : Kernel FileSystem File) (globals : Globals) (request : Query FileSystem) :
    Option Globals := do
  let handled := request.handle kernel globals
  match handled.reported with
  | none => pure handled.globals
  | some errmsg =>
    logMsg errmsg
    pure handled.globals

/-- The variables after a series of requests of any clients. -/
def globalsAfter (kernel : Kernel FileSystem File) (history : List (Query FileSystem)) :
    Option Globals :=
  history.foldlM (Query.serve kernel) {}

def answerAfter (kernel : Kernel FileSystem File) (history : List (Query FileSystem))
    (request : Query FileSystem) :
    Option (Answer File) :=
  (globalsAfter kernel history).map fun globals => (request.handle kernel globals).answer

/-- The message that is reported for a request holds no conversion. -/
def Query.Plain (kernel : Kernel FileSystem File) (globals : Globals)
    (request : Query FileSystem) : Prop :=
  ∀ errmsg ∈ (request.handle kernel globals).reported, (formatted (cstr errmsg)).isSome

/-- Every request of the series finds the server in a state in which its message holds none. -/
def PlainLogs (kernel : Kernel FileSystem File) : Globals → List (Query FileSystem) → Prop
  | _, [] => True
  | globals, request :: history =>
    request.Plain kernel globals ∧ PlainLogs kernel (request.handle kernel globals).globals history

theorem Query.serve_of_plain {kernel : Kernel FileSystem File} {globals : Globals}
    {request : Query FileSystem}
    (plain : request.Plain kernel globals) :
    request.serve kernel globals = some (request.handle kernel globals).globals := by
  unfold Query.Plain at plain
  simp only [Query.serve]
  cases reports : (request.handle kernel globals).reported with
  | none => rfl
  | some errmsg =>
    obtain ⟨text, prints⟩ := Option.isSome_iff_exists.mp (plain errmsg reports)
    simp [logMsg, prints]

theorem Query.serve_of_not_plain {kernel : Kernel FileSystem File} {globals : Globals}
    {request : Query FileSystem}
    (harmful : ¬request.Plain kernel globals) : request.serve kernel globals = none := by
  unfold Query.Plain at harmful
  simp only [Query.serve]
  cases reports : (request.handle kernel globals).reported with
  | none => simp [reports] at harmful
  | some errmsg =>
    have undefined : formatted (cstr errmsg) = none := by simpa [reports] using harmful
    simp [logMsg, undefined]

/-- The server is there after a series of requests exactly when no message has held a conversion. -/
theorem foldlM_serve_iff (kernel : Kernel FileSystem File) (globals : Globals)
    (history : List (Query FileSystem)) :
    (history.foldlM (Query.serve kernel) globals).isSome ↔ PlainLogs kernel globals history := by
  induction history generalizing globals with
  | nil => simp [PlainLogs]
  | cons request history inductionHypothesis =>
    rw [List.foldlM_cons]
    by_cases plain : request.Plain kernel globals
    · simp [Query.serve_of_plain plain, inductionHypothesis, PlainLogs, plain]
    · simp [Query.serve_of_not_plain plain, PlainLogs, plain]

/-- With the arguments at hand every message is written before it is sent. -/
theorem Query.answer_of_parsable (kernel : Kernel FileSystem File) {request : Query FileSystem}
    (parsable : request.buf.getLast? ≠ some 0 ∨ Parsable request.buf) (globals globals' : Globals) :
    (request.handle kernel globals).answer = (request.handle kernel globals').answer := by
  by_cases terminated : request.buf.getLast? = some 0
  · obtain ⟨token, rest, _, calls⟩ :=
      bufArgs_of_parsable (parsable.resolve_left (not_not_intro terminated))
    simp only [Query.handle, handleRequest, terminated, calls, ne_eq, not_true, if_false]
    obtain ⟨arg0, arg1, arg2, _, _, parses⟩ | refuses :=
      cliArgs_cases (((cstr request.buf).takeWhile white ++ token) :: rest)
    · simp only [parses, Int.lt_irrefl, if_false]
      cases kernel.openFile request.files arg1 (atoi arg2) <;> rfl
    · simp [refuses]
  · simp [Query.handle, handleRequest, terminated]

theorem Query.answer_of_not_parsable (kernel : Kernel FileSystem File) {request : Query FileSystem}
    (terminated : request.buf.getLast? = some 0) (refused : ¬Parsable request.buf)
    (globals : Globals) :
    (request.handle kernel globals).answer = sendErr (-1) globals.errmsg := by
  simp [Query.handle, handleRequest, terminated, bufArgs_of_not_parsable refused]

/-- The answer to a request depends on the request alone, whatever requests of which no message held
a conversion came before, exactly when it is not terminated or has at least one word and fewer than
`MAXARGC`; after one that did there is none. -/
theorem answer_independent_iff (kernel : Kernel FileSystem File) (request : Query FileSystem) :
    ((∀ history history', PlainLogs kernel {} history → PlainLogs kernel {} history' →
        ∃ answer, answerAfter kernel history request = some answer ∧
          answerAfter kernel history' request = some answer) ↔
      request.buf.getLast? ≠ some 0 ∨ Parsable request.buf) ∧
    ∀ history, ¬PlainLogs kernel {} history → answerAfter kernel history request = none := by
  refine ⟨⟨fun same => ?_, fun parsable history history' plain plain' => ?_⟩,
    fun history harmful => ?_⟩
  · by_contra refused
    rw [not_or, not_not] at refused
    -- after one request that is refused with the usage, against none at all
    have fresh : globalsAfter kernel ([] : List (Query FileSystem)) = some {} := rfl
    have used : globalsAfter kernel [⟨request.files, ascii "x" ++ [0], request.uid⟩] = some { errmsg := usage } := by
      rw [globalsAfter, List.foldlM_cons, Query.serve_of_plain]
      · rfl
      · unfold Query.Plain
        intro errmsg reports
        obtain rfl : usage = errmsg := Option.some.inj reports
        decide
    have plain : PlainLogs kernel {} [⟨request.files, ascii "x" ++ [0], request.uid⟩] := by
      rw [← foldlM_serve_iff]
      exact Option.isSome_iff_exists.mpr ⟨_, used⟩
    obtain ⟨answer, first, second⟩ := same [] [⟨request.files, ascii "x" ++ [0], request.uid⟩] trivial plain
    simp only [answerAfter, fresh, used, Option.map_some, Option.some.injEq,
      Query.answer_of_not_parsable kernel refused.1 refused.2] at first second
    have differ := congrArg Answer.text (first.trans second.symm)
    simp only [sendErr] at differ
    exact absurd differ (by decide)
  · obtain ⟨globals, here⟩ :=
      Option.isSome_iff_exists.mp ((foldlM_serve_iff kernel {} history).mpr plain)
    obtain ⟨globals', here'⟩ :=
      Option.isSome_iff_exists.mp ((foldlM_serve_iff kernel {} history').mpr plain')
    refine ⟨(request.handle kernel globals).answer, by simp [answerAfter, globalsAfter, here], ?_⟩
    rw [Query.answer_of_parsable kernel parsable globals globals']
    simp [answerAfter, globalsAfter, here']
  · have gone : globalsAfter kernel history = none := by
      rw [← Option.not_isSome_iff_eq_none, globalsAfter, foldlM_serve_iff]
      exact harmful
    simp [answerAfter, gone]

end History

/-- Nothing can be opened. -/
def noFiles : Kernel Unit Unit := ⟨fun _ _ _ => .error 2, fun _ => ascii "No such file or directory"⟩

/-- The answer to an empty request names the file that another user asked for before. -/
theorem answer_names_foreign_file :
    ¬∀ history history', answerAfter noFiles history ⟨(), [0], 1⟩ = answerAfter noFiles history'
      ⟨(), [0], 1⟩ := by
  intro same
  have first : answerAfter noFiles [] ⟨(), [0], 1⟩ = some ⟨[], .status 1⟩ := by decide
  have second : answerAfter noFiles [⟨(), csopenRequest (ascii "/home/a") 0, 2⟩] ⟨(), [0], 1⟩ =
      some ⟨ascii "can't open /home/a: No such file or directory\n", .status 1⟩ := by decide
  rw [same [] [⟨(), csopenRequest (ascii "/home/a") 0, 2⟩], second] at first
  exact absurd first (by decide)

/-! ## What the server opens -/

section Parsed

variable {name : Bytes} {oflag : Int}

theorem solid_decimalInt (z : Int) : ∀ b ∈ decimalInt z, white b = false := by
  have solid : ∀ n, ∀ b ∈ decimal n, white b = false := by
    intro n b member
    cases separates : white b with
    | false => rfl
    | true =>
      simp only [white, Bool.or_eq_true, decide_eq_true_eq] at separates
      obtain (rfl | rfl) | rfl := separates <;> exact absurd member (notMem_decimal (by decide))
  unfold decimalInt
  split
  · simpa [white] using solid z.natAbs
  · exact solid z.toNat

/-- The request as the server sees it, without the NUL. -/
theorem cstr_csopenRequest (clean : NulFree name) :
    cstr (csopenRequest name oflag) = clOpen ++ 32 :: (name ++ 32 :: decimalInt oflag) := by
  have text : NulFree (clOpen ++ 32 :: (name ++ 32 :: decimalInt oflag)) := by
    have number := nulFree_decimalInt oflag
    simp only [NulFree, List.mem_append, List.mem_cons, not_or] at clean number ⊢
    exact ⟨by decide, by decide, clean, by decide, number⟩
  rw [csopenRequest, cstr_of_nulFree clean]
  simpa using cstr_append_zero text []

theorem words_csopenRequest (clean : NulFree name) :
    words white (cstr (csopenRequest name oflag)) = clOpen :: words white name ++
      [decimalInt oflag] := by
  rw [cstr_csopenRequest clean, words_append_cons _ _ (by decide),
    words_append_cons _ _ (by decide),
    words_word (decimalInt_ne_nil oflag) (solid_decimalInt oflag)]
  rfl

theorem csopenRequest_terminated : (csopenRequest name oflag).getLast? = some 0 := by
  rw [csopenRequest, List.getLast?_append]
  rfl

/-- `open` is the first word, and no white space comes before it. -/
theorem bufArgs_csopenRequest (clean : NulFree name) (few : Parsable (csopenRequest name oflag))
    (optfunc : OptFunc)
    (globals : Globals) : bufArgs (csopenRequest name oflag) optfunc globals =
      optfunc (clOpen :: words white name ++ [decimalInt oflag]) globals := by
  obtain ⟨token, rest, split, calls⟩ := bufArgs_of_parsable few
  have front : (cstr (csopenRequest name oflag)).takeWhile white = [] := by
    rw [cstr_csopenRequest clean]
    rfl
  rw [calls, front, List.nil_append, ← split, words_csopenRequest clean]

variable {FileSystem File : Type} {kernel : Kernel FileSystem File} {files : FileSystem} {uid : Nat}
    {globals : Globals}

theorem attempt_of_word {word : Bytes} (clean : NulFree name) (lower : -2 ^ 31 ≤ oflag)
    (upper : oflag < 2 ^ 31)
    (single : words white name = [word]) :
    (handleRequest bufArgs kernel files (csopenRequest name oflag) uid globals).attempt =
    some (word, oflag) := by
  have few : Parsable (csopenRequest name oflag) := by
    rw [Parsable, words_csopenRequest clean, single]
    exact ⟨by simp, by simp [maxargc]⟩
  have parses : bufArgs (csopenRequest name oflag) cliArgs globals =
      (0, { globals with pathname := word, oflag := oflag }) := by
    rw [bufArgs_csopenRequest clean few, single]
    simp [cliArgs, strEq, atoi_decimalInt lower upper]
  simp only [handleRequest, csopenRequest_terminated, parses, ne_eq, not_true,
    Int.lt_irrefl, if_false]
  cases kernel.openFile files word oflag <;> rfl

/-- With no word in the name, or more than one, there are not three arguments. -/
theorem refused_of_words (clean : NulFree name) (several : (words white name).length ≠ 1) :
    let handled := handleRequest bufArgs kernel files (csopenRequest name oflag) uid globals
    handled.attempt = none ∧ handled.answer.IsError := by
  have refuses : (bufArgs (csopenRequest name oflag) cliArgs globals).1 = -1 := by
    by_cases few : Parsable (csopenRequest name oflag)
    · rw [bufArgs_csopenRequest clean few]
      obtain ⟨arg0, arg1, arg2, three, _⟩ | usage :=
        cliArgs_cases (clOpen :: words white name ++ [decimalInt oflag])
      · have count := congrArg List.length three
        simp only [List.length_append, List.length_cons, List.length_nil] at count
        omega
      · rw [usage]
    · rw [bufArgs_of_not_parsable few]
  simp only [handleRequest, csopenRequest_terminated, ne_eq, not_true, if_false, refuses,
    show (-1 : Int) < 0 by decide, if_true]
  exact ⟨trivial, sendErr_isError _ _⟩

/-- The server opens the very name and flags that the client asked for, or answers with an error,
exactly when the name is not one word with white space before or after it. -/
theorem request_parsed_iff (kernel : Kernel FileSystem File) (files : FileSystem) (uid : Nat)
    (globals : Globals)
    {name : Bytes} (clean : NulFree name) {oflag : Int} (lower : -2 ^ 31 ≤ oflag)
    (upper : oflag < 2 ^ 31) :
    let handled := handleRequest bufArgs kernel files (csopenRequest name oflag) uid globals
    (handled.attempt = some (name, oflag) ∨ handled.attempt = none ∧ handled.answer.IsError) ↔
      (words white name).length ≠ 1 ∨ ∀ b ∈ name, white b = false := by
  intro handled
  by_cases single : (words white name).length = 1
  · obtain ⟨word, only⟩ := List.length_eq_one_iff.mp single
    have attempt : handled.attempt = some (word, oflag) := attempt_of_word clean lower upper only
    have solid : ∀ b ∈ word, white b = false := solid_of_mem_words (s := name) (by simp [only])
    have same : word = name ↔ ∀ b ∈ name, white b = false := by
      constructor
      · rintro rfl
        exact solid
      · intro whole
        have nonempty : name ≠ [] := by
          rintro rfl
          simp [words_nil] at only
        rw [words_word nonempty whole] at only
        simpa using only.symm
    simp [attempt, single, same]
  · simp only [single, not_false_eq_true, true_or, iff_true, ne_eq]
    exact .inr (refused_of_words clean single)

end Parsed

theorem request_parsed_iff_plain :
    let handled := handleRequest bufArgs noFiles () (csopenRequest (ascii "a b") 0) 1 {}
    handled.attempt = some (ascii "a b", 0) ∨ handled.attempt = none ∧ handled.answer.IsError :=
  (request_parsed_iff noFiles () 1 {} (by decide) (by decide) (by decide)).mpr (by decide)

/-- A name with a blank in front is opened without it. -/
theorem request_opens_other_name :
    let handled := handleRequest bufArgs noFiles () (csopenRequest (ascii " a") 0) 1 {}
    handled.attempt = some (ascii "a", 0) ∧
      ¬(handled.attempt = some (ascii " a", 0) ∨ handled.attempt = none ∧ handled.answer.IsError) := by
  intro handled
  have attempt : handled.attempt = some (ascii "a", 0) := by decide
  rw [attempt]
  exact ⟨rfl, by simp [ascii]⟩

end Apue.Opend
