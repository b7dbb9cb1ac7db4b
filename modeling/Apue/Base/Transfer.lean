import Mathlib.Data.List.Basic

/-! # Transfers of a given length

A loop that goes on calling until everything has been moved, a call moves nothing, or a call fails.
What a call does (reads, writes) is a parameter.  The course of such a loop is the list of its
calls: each asks for just what is missing, all but the last move something, and in the end
everything has been moved if the last one has moved something, too.
-/

namespace Apue.Base.Transfer

variable {σ ε α : Type}

/-- A call that asks for elements from the place `ptr` on: those it moves, or its failure. -/
structure Call (ε α : Type) where
  ptr : Nat
  asked : Nat
  result : Except ε (List α)

def Call.moved (call : Call ε α) : List α :=
  match call.result with
  | .ok chunk => chunk
  | .error _ => []

/-- What the calls have moved, in order. -/
def moved (calls : List (Call ε α)) : List α := calls.flatMap Call.moved

/-- What a call at the place `ptr` for `nleft` elements does. -/
abbrev Mover (σ ε α : Type) := σ → Nat → Nat → Except ε (List α) × σ

/-- No call moves more than it is asked for. -/
def Bounded (move : Mover σ ε α) : Prop :=
  ∀ s ptr nleft chunk s', move s ptr nleft = (.ok chunk, s') → chunk.length ≤ nleft

/-- The loop, with so many turns.  A failure is returned only by the first call. -/
def loop (move : Mover σ ε α) (n : Nat) : Nat → Nat → Nat → σ → Except ε Nat × σ
  | 0, nleft, _, s => (.ok (n - nleft), s)
  | turns + 1, nleft, ptr, s =>
    if nleft = 0 then (.ok (n - nleft), s)
    else
      match move s ptr nleft with
      | (.error error, s) => (if nleft = n then .error error else .ok (n - nleft), s)
      | (.ok chunk, s) =>
        if chunk.length = 0 then (.ok (n - nleft), s)
        else loop move n turns (nleft - chunk.length) (ptr + chunk.length) s

/-- Every turn moves something, so `n + 1` turns are enough. -/
def transfer (move : Mover σ ε α) (n : Nat) (s : σ) : Except ε Nat × σ := loop move n (n + 1) n 0 s

/-- Calls that hand over the rest of the elements; a count says how many of them are taken. -/
def writing (write : σ → List α → Except ε Nat × σ) (elements : List α) : Mover σ ε α :=
  fun s ptr nleft =>
  let rest := (elements.drop ptr).take nleft
  match write s rest with
  | (.error error, s) => (.error error, s)
  | (.ok count, s) => (.ok (rest.take count), s)

/-- The calls are made one after the other. -/
inductive Makes (move : Mover σ ε α) : σ → List (Call ε α) → σ → Prop where
  | nil (s : σ) : Makes move s [] s
  | cons {s s' s'' : σ} {call : Call ε α} {calls : List (Call ε α)} (answers : move s call.ptr call.asked = (call.result, s'))
      (rest : Makes move s' calls s'') : Makes move s (call :: calls) s''

/-- The calls of a transfer of which `done` elements have been moved before. -/
inductive Course (n : Nat) : Nat → List (Call ε α) → Prop where
  | whole : Course n n []
  | stops {done : Nat} {call : Call ε α} (short : done < n) (ptr : call.ptr = done) (asked : call.asked = n - done)
      (nothing : call.moved = []) : Course n done [call]
  | goesOn {done : Nat} {call : Call ε α} {calls : List (Call ε α)} (short : done < n) (ptr : call.ptr = done)
      (asked : call.asked = n - done) (something : call.moved ≠ []) (bounded : call.moved.length ≤
        call.asked)
      (rest : Course n (done + call.moved.length) calls) : Course n done (call :: calls)

/-- The very first call has failed. -/
def FirstFails (calls : List (Call ε α)) : Prop :=
  ∃ call rest error, calls = call :: rest ∧ call.result = .error error

/-- The calls of a transfer of `n` elements move no more than `limit` of them. -/
def AtMost (move : Mover σ ε α) (s : σ) (n limit : Nat) : Prop :=
  ∀ calls s', Makes move s calls s' → Course n 0 calls → (moved calls).length ≤ limit

/-- What the loop returns when `done` elements have been moved before: the failure of the very first
call, or how much has been moved. -/
def outcome : Nat → List (Call ε α) → Except ε Nat
  | 0, ⟨_, _, .error error⟩ :: _ => .error error
  | done, calls => .ok (done + (moved calls).length)

@[simp] theorem moved_nil : moved ([] : List (Call ε α)) = [] := rfl

@[simp] theorem moved_cons (call : Call ε α) (calls : List (Call ε α)) : moved (call :: calls) = call.moved ++ moved calls := rfl

/-! ## What the calls do, one after the other -/

section Makes

variable {move : Mover σ ε α} {s s' s'' : σ} {calls calls' : List (Call ε α)}

/-- Calls that take what they move from the front of a stream deliver it in order. -/
theorem Makes.delivers (makes : Makes move s calls s') (stream : σ → List α)
    (takes : ∀ s ptr nleft result s', move s ptr nleft = (result, s') →
    stream s = (Call.mk ptr nleft result).moved ++ stream s') :
    stream s = moved calls ++ stream s' := by
  induction makes with
  | nil s => rfl
  | cons answers _ inductionHypothesis =>
    rw [moved_cons, List.append_assoc, ← inductionHypothesis]
    exact takes _ _ _ _ _ answers

/-- Calls that put what they move behind a stream have put all of it there, in order. -/
theorem Makes.collects (makes : Makes move s calls s') (stream : σ → List α)
    (puts : ∀ s ptr nleft result s', move s ptr nleft = (result, s') → stream s' = stream s ++
    (Call.mk ptr nleft result).moved) :
    stream s' = stream s ++ moved calls := by
  induction makes with
  | nil s => exact (List.append_nil _).symm
  | cons answers _ inductionHypothesis =>
    rw [inductionHypothesis, moved_cons, ← List.append_assoc]
    exact congrArg (· ++ _) (puts _ _ _ _ _ answers)

end Makes

/-! ## The course of the loop -/

section Loop

variable {move : Mover σ ε α} {n done turns : Nat} {call : Call ε α}
    {calls before after : List (Call ε α)} {chunk : List α}

theorem outcome_nil (done : Nat) : outcome done ([] : List (Call ε α)) = .ok done := by
  cases done <;> rfl

theorem outcome_of_pos (later : 0 < done) (calls : List (Call ε α)) :
    outcome done calls = .ok (done + (moved calls).length) := by
  obtain ⟨m, rfl⟩ := Nat.exists_eq_add_of_lt later
  rfl

theorem outcome_cons_ok (done : Nat) (answers : call.result = .ok chunk) (calls : List (Call ε α)) :
    outcome done (call :: calls) = .ok (done + (moved (call :: calls)).length) := by
  obtain ⟨ptr, asked, result⟩ := call
  subst answers
  cases done <;> rfl

theorem outcome_of_firstFails (fails : FirstFails calls) :
    ∃ error, outcome 0 calls = .error error := by
  obtain ⟨⟨ptr, asked, result⟩, rest, error, rfl, rfl⟩ := fails
  exact ⟨error, rfl⟩

theorem outcome_of_not_firstFails (answered : ¬FirstFails calls) :
    outcome 0 calls = .ok (moved calls).length := by
  cases calls with
  | nil => rfl
  | cons call rest =>
    cases answer : call.result with
    | error error => exact absurd ⟨call, rest, error, rfl, answer⟩ answered
    | ok chunk => rw [outcome_cons_ok 0 answer, Nat.zero_add]

theorem loop_course (bounded : Bounded move) (enough : n - done < turns)
    (inside : done ≤ n) (s : σ) :
    ∃ calls s', Makes move s calls s' ∧ Course n done calls ∧
      loop move n turns (n - done) done s = (outcome done calls, s') := by
  induction turns generalizing done s with
  | zero => omega
  | succ turns inductionHypothesis =>
    by_cases finished : n - done = 0
    · obtain rfl : done = n := by omega
      exact ⟨[], s, .nil s,
        .whole, by rw [loop, if_pos finished, finished, outcome_nil, Nat.sub_zero]⟩
    have short : done < n := by omega
    have here : n - (n - done) = done := by omega
    rw [loop, if_neg finished, here]
    cases answer : move s done (n - done) with
    | mk result s' =>
      let call : Call ε α := ⟨done, n - done, result⟩
      cases result with
      | error error =>
        refine ⟨[call], s', .cons answer (.nil s'), .stops short rfl rfl rfl, ?_⟩
        dsimp only
        by_cases first : done = 0
        · subst first
          rw [if_pos (Nat.sub_zero n)]
          rfl
        · rw [if_neg (by omega), outcome_of_pos (Nat.pos_of_ne_zero first)]
          rfl
      | ok chunk =>
        have atMost := bounded s _ _ chunk s' answer
        dsimp only
        by_cases nothing : chunk.length = 0
        · have empty := List.length_eq_zero_iff.1 nothing
          refine ⟨[call], s', .cons answer (.nil s'), .stops short rfl rfl empty, ?_⟩
          rw [if_pos nothing, outcome_cons_ok done rfl, moved_cons, show call.moved = [] from empty]
          rfl
        · obtain ⟨calls, s'', makes, course, ends⟩ :=
            @inductionHypothesis (done + chunk.length) (by omega) (by omega) s'
          refine ⟨call :: calls, s'', .cons answer makes,
            .goesOn short rfl rfl ?_ atMost course, ?_⟩
          · exact fun empty => nothing (List.length_eq_zero_iff.2 empty)
          · rw [if_neg nothing, Nat.sub_sub, ends, outcome_of_pos (by omega),
              outcome_cons_ok done rfl, moved_cons,
              List.length_append, show call.moved = chunk from rfl, Nat.add_assoc]

/-- A transfer makes its calls and returns what they say. -/
theorem transfer_course (bounded : Bounded move) (n : Nat) (s : σ) :
    ∃ calls s', Makes move s calls s' ∧ Course n 0 calls ∧
      transfer move n s = (outcome 0 calls, s') :=
  loop_course bounded (Nat.lt_succ_self n) (Nat.zero_le n) s

namespace Course

variable (course : Course n done calls)
include course

/-- No more than what is asked for is moved. -/
theorem atMost : done + (moved calls).length ≤ n := by
  induction course with
  | whole => exact Nat.le_refl n
  | stops short _ _ nothing => simp [nothing, Nat.le_of_lt short]
  | goesOn _ _ _ _ _ _ inductionHypothesis =>
    rw [moved_cons, List.length_append, ← Nat.add_assoc]
    exact inductionHypothesis

/-- Every call begins behind what has been moved and asks for all that is missing. -/
theorem missing (split : calls = before ++ call :: after) :
    call.ptr = done + (moved before).length ∧ call.asked = n - call.ptr ∧ call.ptr < n := by
  induction course generalizing before with
  | whole => cases before <;> cases split
  | stops short ptr asked nothing =>
    cases before with
    | nil =>
      cases split
      exact ⟨ptr, ptr ▸ asked, ptr ▸ short⟩
    | cons first before => cases before <;> cases split
  | goesOn short ptr asked something bounded rest inductionHypothesis =>
    cases before with
    | nil =>
      cases split
      exact ⟨ptr, ptr ▸ asked, ptr ▸ short⟩
    | cons first before =>
      cases split
      rw [moved_cons, List.length_append, ← Nat.add_assoc]
      exact inductionHypothesis rfl

/-- If no call fails or moves nothing, everything is moved. -/
theorem full (all : ∀ call ∈ calls, call.moved ≠ []) : done + (moved calls).length = n := by
  induction course with
  | whole => rfl
  | stops _ _ _ nothing => exact absurd nothing (all _ List.mem_cons_self)
  | goesOn _ _ _ _ _ _ inductionHypothesis =>
    rw [moved_cons, List.length_append, ← Nat.add_assoc]
    exact inductionHypothesis fun call member => all call (List.mem_cons_of_mem _ member)

/-- If the first call fails, it is the only one. -/
theorem firstFails (fails : FirstFails calls) : done < n ∧ moved calls = [] := by
  obtain ⟨call, rest, error, rfl, failed⟩ := fails
  have nothing : call.moved = [] := by rw [Call.moved, failed]
  cases course with
  | stops short _ _ _ => exact ⟨short, by simp [nothing]⟩
  | goesOn _ _ _ something _ _ => exact absurd nothing something

end Course

/-- The same call in the same state is answered in the same way. -/
theorem Call.unique {s s' s'' : σ} {call' : Call ε α} (ptr : call.ptr = done)
    (asked : call.asked = n - done)
    (ptr' : call'.ptr = done) (asked' : call'.asked = n - done)
    (answers : move s call.ptr call.asked = (call.result, s'))
    (answers' : move s call'.ptr call'.asked = (call'.result, s'')) : call' = call ∧ s'' = s' := by
  obtain ⟨_, _, result⟩ := call
  obtain ⟨_, _, result'⟩ := call'
  dsimp only at ptr asked ptr' asked' answers answers'
  subst ptr asked ptr' asked'
  rw [answers] at answers'
  cases answers'
  exact ⟨rfl, rfl⟩

/-- So there is only one way for a transfer to go. -/
theorem Course.unique {s s' s'' : σ} {calls' : List (Call ε α)} (course : Course n done calls)
    (course' : Course n done calls')
    (makes : Makes move s calls s') (makes' : Makes move s calls' s'') :
    calls' = calls ∧ s'' = s' := by
  induction course generalizing s calls' with
  | whole =>
    cases course' with
    | whole =>
      cases makes
      cases makes'
      exact ⟨rfl, rfl⟩
    | stops short => exact absurd short (Nat.lt_irrefl n)
    | goesOn short => exact absurd short (Nat.lt_irrefl n)
  | stops short ptr asked nothing =>
    cases makes with | cons answers rest =>
    cases rest
    cases course' with
    | whole => exact absurd short (Nat.lt_irrefl n)
    | stops _ ptr' asked' _ =>
      cases makes' with | cons answers' rest' =>
      cases rest'
      obtain ⟨rfl, rfl⟩ := Call.unique ptr asked ptr' asked' answers answers'
      exact ⟨rfl, rfl⟩
    | goesOn _ ptr' asked' something _ _ =>
      cases makes' with | cons answers' rest' =>
      obtain ⟨rfl, rfl⟩ := Call.unique ptr asked ptr' asked' answers answers'
      exact absurd nothing something
  | goesOn short ptr asked something bounded rest inductionHypothesis =>
    cases makes with | cons answers makes =>
    cases course' with
    | whole => exact absurd short (Nat.lt_irrefl n)
    | stops _ ptr' asked' nothing =>
      cases makes' with | cons answers' makes' =>
      obtain ⟨rfl, rfl⟩ := Call.unique ptr asked ptr' asked' answers answers'
      exact absurd nothing something
    | goesOn _ ptr' asked' _ _ rest' =>
      cases makes' with | cons answers' makes' =>
      obtain ⟨rfl, rfl⟩ := Call.unique ptr asked ptr' asked' answers answers'
      obtain ⟨rfl, rfl⟩ := inductionHypothesis rest' makes makes'
      exact ⟨rfl, rfl⟩

section Writing

variable {write : σ → List α → Except ε Nat × σ} {elements : List α} {s s' : σ}

/-- What is taken of the rest. -/
theorem writing_spec (moves : writing write elements s call.ptr call.asked = (call.result, s')) :
    ∃ count, write s ((elements.drop call.ptr).take call.asked) = (count, s') ∧
      call.moved = ((elements.drop call.ptr).take call.asked).take (count.toOption.getD 0) := by
  unfold writing at moves
  dsimp only at moves
  rw [Call.moved]
  split at moves <;> rename_i answer <;> obtain ⟨result, rfl⟩ := Prod.mk.inj moves <;> rw [← result]
  · exact ⟨_, answer, rfl⟩
  · exact ⟨_, answer, rfl⟩

theorem writing_bounded (write : σ → List α → Except ε Nat × σ) (elements : List α) :
    Bounded (writing write elements) := by
  intro s ptr nleft chunk s' moves
  obtain ⟨count, _, taken⟩ := @writing_spec _ _ _ ⟨ptr, nleft, .ok chunk⟩ _ _ _ _ moves
  have taken : chunk = ((elements.drop ptr).take nleft).take (count.toOption.getD 0) := taken
  rw [taken, List.length_take, List.length_take]
  omega

/-- What is taken is the front of the elements. -/
theorem Makes.front (makes : Makes (writing write elements) s calls s')
    (course : Course n done calls) :
    moved calls <+: elements.drop done := by
  induction course generalizing s with
  | whole => exact List.nil_prefix
  | stops short ptr asked nothing =>
    rw [moved_cons, nothing]
    exact List.nil_prefix
  | goesOn short ptr asked something bounded rest inductionHypothesis =>
    cases makes with | cons answers makes =>
    obtain ⟨count, _, taken⟩ := writing_spec answers
    have front : _ <+: elements.drop _ :=
      taken ▸ (List.take_prefix _ _).trans (List.take_prefix _ _)
    rw [ptr] at front
    obtain ⟨behind, here⟩ := front
    have later := inductionHypothesis makes
    rw [← List.drop_drop, ← here, List.drop_left] at later
    rw [moved_cons, ← here]
    exact (List.prefix_append_right_inj _).2 later

/-- What is taken stands behind a stream if every write puts it there. -/
theorem Makes.written (makes : Makes (writing write elements) s calls s') (stream : σ → List α)
    (puts : ∀ s elements count s', write s elements = (count, s') →
    stream s' = stream s ++ elements.take (count.toOption.getD 0)) :
    stream s' = stream s ++ moved calls := by
  apply makes.collects stream
  intro s ptr nleft result s' moves
  obtain ⟨count, writes, taken⟩ := @writing_spec _ _ _ ⟨ptr, nleft, result⟩ _ _ _ _ moves
  rw [taken]
  exact puts _ _ _ _ writes

end Writing

/-- What is asked for is a limit. -/
theorem AtMost.of_le {limit : Nat} (s : σ) (small : n ≤ limit) : AtMost move s n limit := by
  intro calls s' _ course
  have room := course.atMost
  omega

/-- If a first call for more than the limit fails, nothing is moved at all. -/
theorem AtMost.of_refused {s : σ} {limit : Nat}
    (refused : limit < n → ∃ error s', move s 0 n = (.error error, s')) :
    AtMost move s n limit := by
  by_cases small : n ≤ limit
  · exact .of_le s small
  obtain ⟨error, s₁, failed⟩ := refused (Nat.lt_of_not_le small)
  intro calls s' makes course
  cases makes with
  | nil s => exact Nat.zero_le _
  | @cons _ _ _ call rest answers _ =>
    have split : call :: rest = [] ++ call :: rest := rfl
    obtain ⟨ptr, asked, _⟩ := course.missing split
    rw [asked, ptr, moved_nil, List.length_nil, Nat.sub_zero, failed] at answers
    rw [(course.firstFails ⟨call, rest, error, rfl, (Prod.mk.inj answers).1.symm⟩).2]
    exact Nat.zero_le _

end Loop

end Apue.Base.Transfer
