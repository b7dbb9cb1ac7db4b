import Apue.Printer.Parsing

/-! # Responses on which `printer_status` returns

The searches move on at `i` and more is read only once `i` has got to `datsz`, but the search for
the end of the header stops two bytes before that and stays there.  Every other loop runs until it
finds its character, in the buffer or behind it.  A line without a number must leave in the buffer
what `log_msg` can take for a format.
-/

namespace Apue.Printer

open Apue.Base

namespace Status

/-- Behind the number: where more is asked for, none comes, or else the end of the header is found
and there are eight bytes of buffer behind it. -/
def Completes (data : Data) (i : Nat) (len : Int) : Prop :=
  ∀ data₁, data.supply i = some data₁ →
    ∃ k, First (endAt data₁.mem data₁.bufsz) i (data₁.datsz - 2) k ∧
      ∀ data₂, data₁.supply (k + 3) = some data₂ →
        ∀ data₃, data₂.complete (k + 3) len = some data₃ → k + 3 + 8 ≤ data₃.bufsz

/-- The field is found from `i` on, or the connection ends first. -/
inductive Finds : Data → Nat → Prop where
  | field {data : Data} {i k start stop : Nat} : First (lengthAt data.mem data.bufsz) i data.datsz k →
      Number data.mem data.bufsz (k + 15) start stop →
      Completes { data with mem := cut data.mem stop }
        (stop + 1) (atoi (slice data.mem start stop)) → Finds data i
  | more {data : Data} {i : Nat} : Missed (lengthAt data.mem data.bufsz) i data.datsz → max i data.datsz < data.bufsz →
      (∀ data', data.refill (max i data.datsz) = some data' → Finds data' (max i data.datsz)) →
        Finds data i

/-- The responses on which the loops end, for a buffer with these contents. -/
inductive Answers : (Nat → UInt8) → Response → Prop where
  | silent {mem : Nat → UInt8} {response : Response} : response.tread iobufsz = none → Answers mem response
  | garbled {mem : Nat → UInt8} {response rest : Response} {piece : Bytes} {start : Nat} :
      response.tread iobufsz = some (piece, rest) →
        Span isSpace (store mem 0 piece) iobufsz 8 start →
      isDigit (store mem 0 piece start) = false → Printable (store mem 0 piece) iobufsz →
        Answers (store mem 0 piece) rest →
      Answers mem response
  | informed {mem : Nat → UInt8} {response rest : Response} {piece : Bytes} {start stop eol : Nat} :
      response.tread iobufsz = some (piece, rest) →
        StatusLine (store mem 0 piece) iobufsz start stop eol →
      httpInfo (atoi (slice (store mem 0 piece) start stop)) = true →
      Answers (cut (cut (store mem 0 piece) stop) eol) rest → Answers mem response
  | accepted {mem : Nat → UInt8} {response rest : Response} {piece : Bytes} {start stop eol : Nat} :
      response.tread iobufsz = some (piece, rest) →
        StatusLine (store mem 0 piece) iobufsz start stop eol →
      httpSuccess (atoi (slice (store mem 0 piece) start stop)) = true →
      Finds ⟨cut (cut (store mem 0 piece) stop) eol, iobufsz, piece.length, rest⟩ eol →
        Answers mem response
  | refused {mem : Nat → UInt8} {response rest : Response} {piece : Bytes} {start stop eol : Nat} :
      response.tread iobufsz = some (piece, rest) →
        StatusLine (store mem 0 piece) iobufsz start stop eol →
      httpInfo (atoi (slice (store mem 0 piece) start stop)) = false →
      httpSuccess (atoi (slice (store mem 0 piece) start stop)) = false → piece.length < iobufsz →
        Answers mem response

/-! ## Behind the number -/

section Tail

variable {jobid : Int} {s : Status}

/-- The run returns. -/
abbrev Returning (jobid : Int) (s : Status) : Prop := Settles jobid Logs (fun _ => True) s

theorem quiet_logs : Quiet Logs := fun _ ungarbled garbled => absurd garbled ungarbled

theorem returning_step (ungarbled : s.point ≠ .statusDigits) :
    Returning jobid s ↔ Returning jobid (s.step jobid) := by
  rw [Returning, settles_step quiet_logs]
  exact and_iff_right fun garbled => absurd garbled.1 ungarbled

theorem returning_readmore {next : Point} :
    Returning jobid (s.readmore next) ↔ ∀ data, s.data.refill s.i = some data →
      Returning jobid (s.resume data next) := by
  rw [Returning, settles_readmore]
  cases s.data.refill s.i with
  | none => simp
  | some data => simp

/-- A place where more is read when the data ends. -/
theorem returning_supply {next : Point} (place : s.cp = s.i) (point : s.point ≠ .statusDigits)
    (turn : s.step jobid = if s.i ≥ s.datsz then s.readmore next else { s with point := next }) :
    Returning jobid s ↔ ∀ data, s.data.supply s.i = some data →
      Returning jobid (s.resume data next) := by
  rw [returning_step point, turn, Data.supply]
  by_cases ends : s.i ≥ s.datsz
  · rw [if_pos ends, if_pos (show s.i ≥ s.data.datsz from ends)]
    exact returning_readmore
  · rw [if_neg ends, if_neg (show ¬s.i ≥ s.data.datsz from ends)]
    simp [resume, data, ← place]

theorem returning_body (place : s.cp = s.i) (point : s.point = .body) :
    Returning jobid s ↔ ∀ data, s.data.complete s.i s.len = some data → s.i + 8 ≤ data.bufsz := by
  have header : ∀ t : Status, t.point = .header → (Returning jobid t ↔ t.cp + 8 ≤ t.bufsz) := by
    intro t point
    rw [returning_step (by simp [point])]
    by_cases room : t.cp + 8 ≤ t.bufsz
    · simp only [room, iff_true]
      simp only [Status.step, point, room, if_true]
      split <;> exact (settles_returned rfl).mpr trivial
    · simp only [room, iff_false]
      apply not_settles_undefined
      simp [Status.step, point, room]
  -- more is read only when the body is shorter than announced
  rw [returning_step (by simp [point])]
  by_cases lacks : (s.datsz - s.i : Int) < s.len
  · have turn : s.step jobid = s.readmore .header := by simp [Status.step, point, lacks]
    have more : s.data.complete s.i s.len = s.data.refill s.i := if_pos lacks
    rw [turn, more, returning_readmore]
    apply forall₂_congr
    intro data _
    exact header _ rfl
  · have turn : s.step jobid = { s with point := .header } := by simp [Status.step, point, lacks]
    have enough : s.data.complete s.i s.len = some s.data := if_neg lacks
    rw [turn, enough, header _ rfl]
    simp [place, data]

/-- Behind the number the run returns if no more comes when more is needed, or the empty line is
found. -/
theorem returning_completes (place : s.cp = s.i) (point : s.point = .afterLength) :
    Returning jobid s ↔ Completes s.data s.i s.len := by
  have length : Returning jobid s ↔
      ∀ data, s.data.supply s.i = some data → Returning jobid (s.resume data .seekEnd) :=
    returning_supply place (by simp [point]) (by simp only [Status.step, point])
  rw [length]
  apply forall₂_congr
  intro data₁ supplied
  have ahead : s.i < data₁.datsz := by
    unfold Data.supply at supplied
    split at supplied
    · exact (refill_left supplied).1
    · cases supplied
      exact Nat.not_le.mp ‹_›
  rw [show s.resume data₁ .seekEnd = (s.resume data₁ .seekEnd).ending s.i from rfl]
  rw [Returning, (settles_watch jobid quiet_logs _ data₁.bufsz data₁.datsz).seekEnd rfl rfl]
  -- two bytes before the end of the data the search neither moves on nor reads
  have stays : ¬Returning jobid ((s.resume data₁ .seekEnd).ending (max s.i (data₁.datsz - 2))) := by
    apply not_settles
    · apply seekEnd_stays rfl
      · simp only [ending, resume]
        omega
      · simp only [ending, resume]
        omega
    · simp [ending]
  simp only [stays, and_false, or_false]
  apply exists_congr
  intro k
  apply and_congr_right
  intro first
  rw [← Returning, @returning_supply _ { s.resume data₁ .seekEnd with point := .foundEnd, cp := k + 3, i := k + 3 } .body rfl (by simp) rfl]
  apply forall₂_congr
  intro data₂ _
  exact returning_body rfl rfl

end Tail

/-! ## The search for the field -/

section Search

variable {jobid : Int} {s : Status}

theorem returning_field {k : Nat} :
    Returning jobid { s with point := .lengthSpace, cp := k + 15, i := k } ↔
      ∃ start stop, Number s.mem s.bufsz (k + 15) start stop ∧
        Completes { s.data with mem := cut s.mem stop }
          (stop + 1) (atoi (slice s.mem start stop)) := by
  have number := (settles_watch jobid quiet_logs (fun _ => True) s.bufsz s.datsz).number
    (s := { s with point := .lengthSpace, cp := k + 15, i := k }) rfl rfl rfl
  rw [Returning, number]
  apply exists_congr
  intro start
  apply exists_congr
  intro stop
  apply and_congr_right
  intro _
  exact returning_completes rfl rfl

/-- At the end of the data more is read, and the search goes on where it stands. -/
theorem returning_more {j : Nat} (ends : s.datsz ≤ j) :
    Returning jobid (s.seeking j) ↔
      j < s.bufsz ∧ ∀ data, s.data.refill j = some data →
        Returning jobid ((s.resume data .seekLength).seeking j) := by
  rw [Returning, (settles_watch jobid quiet_logs _ s.bufsz s.datsz).seeks s j rfl rfl]
  apply and_congr_right
  intro inside
  have turn : (s.seeking j).step jobid = (s.seeking j).readmore .compareLength := by
    have behind : ¬j < s.datsz := by omega
    simp [Status.step, seeking, peek, inside, behind, ends]
  rw [turn, ← Returning, returning_readmore]
  apply forall₂_congr
  intro data refills
  have ahead : j < data.datsz := (refill_left (i := j) refills).1
  exact ((settles_watch jobid quiet_logs _ data.bufsz data.datsz).seek_turn
    (s := s.resume data .seekLength) rfl rfl ahead).symm

theorem returning_finds (i : Nat) : Returning jobid (s.seeking i) ↔ Finds s.data i := by
  -- on the bytes that are still to come
  induction remaining : s.response.left using Nat.strongRecOn generalizing s i with
  | ind left inductionHypothesis =>
    have later : Returning jobid (s.seeking (max i s.datsz)) ↔ max i s.datsz < s.bufsz ∧
        ∀ data, s.data.refill (max i s.datsz) = some data → Finds data (max i s.datsz) := by
      rw [returning_more (Nat.le_max_right _ _)]
      apply and_congr_right
      intro _
      apply forall₂_congr
      intro data refills
      have fewer : data.response.left < left := remaining ▸ (refill_left refills).2.1
      exact inductionHypothesis _ fewer (s := s.resume data .seekLength) _ rfl
    rw [Returning, (settles_watch jobid quiet_logs _ s.bufsz s.datsz).seek
      rfl rfl i, ← Returning, later]
    -- found inside the data, or looked for again in what is read next
    constructor
    · rintro (⟨k, first, returns⟩ | ⟨missed, inside, goesOn⟩)
      · obtain ⟨start, stop, number, completes⟩ := returning_field.mp returns
        exact @Finds.field s.data _ _ _ _ first number completes
      · exact .more missed inside goesOn
    · intro finds
      cases finds with
      | field first number completes =>
        exact .inl ⟨_, first, returning_field.mpr ⟨_, _, number, completes⟩⟩
      | more missed inside goesOn => exact .inr ⟨missed, inside, goesOn⟩

end Search

/-! ## The whole response -/

section Respond

variable {jobid : Int} {s : Status}

/-- The line is told by its code. -/
theorem returning_judged (start stop eol : Nat) :
    Returning jobid (s.judged start stop eol) ↔
      httpInfo (atoi (slice s.mem start stop)) = true ∧ Returning jobid
        { s with mem := cut (cut s.mem stop) eol, start := start, stop := stop, cp := eol, point := .respond } ∨
      httpSuccess (atoi (slice s.mem start stop)) = true ∧
        Finds { s.data with mem := cut (cut s.mem stop) eol } eol ∨
      httpInfo (atoi (slice s.mem start stop)) = false ∧
        httpSuccess (atoi (slice s.mem start stop)) = false ∧
        s.datsz < s.bufsz := by
  cases info : httpInfo (atoi (slice s.mem start stop)) with
  | true =>
    have other : httpSuccess (atoi (slice s.mem start stop)) = false := by
      cases success : httpSuccess (atoi (slice s.mem start stop)) with
      | false => rfl
      | true =>
        rw [httpSuccess_not_info success] at info
        cases info
    rw [judged_of_info info]
    simp [other]
  | false =>
    cases success : httpSuccess (atoi (slice s.mem start stop)) with
    | true =>
      rw [judged_of_success success, returning_finds]
      simp [data]
    | false =>
      have point : (s.judged start stop eol).point = _ := judged_of_error info success
      simp only [Bool.false_eq_true, false_and, false_or, true_and]
      by_cases room : s.datsz < s.bufsz
      · rw [if_pos room] at point
        simp [Returning, settles_returned point, room]
      · rw [if_neg room] at point
        simp [Returning, not_settles_undefined point, room]

theorem returning_answers (point : s.point = .respond) (size : s.bufsz = iobufsz) :
    Returning jobid s ↔ Answers s.mem s.response := by
  -- on the bytes that are still to come, since every line takes some
  induction remaining : s.response.left using Nat.strongRecOn generalizing s with
  | ind left inductionHypothesis =>
    rw [returning_step (by simp [point])]
    cases reads : s.response.tread iobufsz with
    | none =>
      have turn : (s.step jobid).point = .returned 0 := by simp [Status.step, point, size, reads]
      rw [Returning, settles_returned turn]
      exact iff_of_true trivial (.silent reads)
    | some answer =>
      obtain ⟨piece, rest⟩ := answer
      let mem := store s.mem 0 piece
      let t : Status := ⟨.statusSpace, mem, iobufsz, piece.length, 8, s.i, s.start, s.stop,
        s.len, rest⟩
      have turn : s.step jobid = t := by simp [Status.step, point, size, reads, t, mem]
      have fewer : rest.left < left := by
        have := tread_left reads
        omega
      -- the two ways back to the first loop
      have again : ∀ mem datsz cp i start stop len,
          Returning jobid ⟨.respond, mem, iobufsz, datsz, cp, i, start, stop, len, rest⟩ ↔
            Answers mem rest :=
        fun mem datsz cp i start stop len =>
          inductionHypothesis _ fewer
            (s := ⟨.respond, mem, iobufsz, datsz, cp, i, start, stop, len, rest⟩) rfl rfl rfl
      have judge : ∀ {start stop eol : Nat}, StatusLine mem iobufsz start stop eol →
          (Returning jobid ((t.lined start stop eol).step jobid) ↔
            Returning jobid (t.judged start stop eol)) := by
        intro start stop eol line
        rw [lined_step (s := t) line (Nat.le_refl _)]
      have unlogged (start stop eol : Nat) : Logs (t.lined start stop eol) :=
        quiet_logs _ fun garbled => by simp [Garbled, lined] at garbled
      rw [turn, Returning,
        (settles_watch jobid quiet_logs (fun _ => True) iobufsz piece.length).statusLine
          (s := t) rfl rfl rfl rfl]
      constructor
      · rintro (⟨start, blanks, noDigit, logs, returns⟩ | ⟨start, stop, eol, line, -, returns⟩)
        · exact .garbled reads blanks noDigit
            (logs ⟨rfl, rfl, noDigit⟩) ((again _ _ _ _ _ _ _).mp returns)
        · obtain ⟨info, returns⟩ | ⟨success, finds⟩ | ⟨info, error, room⟩ :=
            (returning_judged _ _ _).mp ((judge line).mp returns)
          · exact .informed reads line info ((again _ _ _ _ _ _ _).mp returns)
          · exact .accepted reads line success finds
          · exact .refused reads line info error room
      · intro answers
        cases answers with
        | silent none =>
          rw [reads] at none
          cases none
        | garbled reads' blanks noDigit printable goesOn =>
          cases reads.symm.trans reads'
          exact .inl ⟨_, blanks, noDigit, fun _ => printable, (again _ _ _ _ _ _ _).mpr goesOn⟩
        | informed reads' line info goesOn =>
          cases reads.symm.trans reads'
          refine .inr ⟨_, _, _, line, unlogged _ _ _, (judge line).mpr ?_⟩
          rw [returning_judged]
          exact .inl ⟨info, (again _ _ _ _ _ _ _).mpr goesOn⟩
        | accepted reads' line success finds =>
          cases reads.symm.trans reads'
          refine .inr ⟨_, _, _, line, unlogged _ _ _, (judge line).mpr ?_⟩
          rw [returning_judged]
          exact .inr (.inl ⟨success, finds⟩)
        | refused reads' line info error room =>
          cases reads.symm.trans reads'
          refine .inr ⟨_, _, _, line, unlogged _ _ _, (judge line).mpr ?_⟩
          rw [returning_judged]
          exact .inr (.inr ⟨info, error, room⟩)

end Respond

end Status

/-- `printer_status` returns exactly on these responses. -/
theorem status_returns_iff (jobid : Int) (heap : Nat → UInt8) (response : Response) :
    (∃ success, ReturnsLogging jobid heap response success) ↔ Status.Answers heap response := by
  have initial : Status.Returning jobid (.initial heap response) ↔ Status.Answers heap response :=
    Status.returning_answers (s := .initial heap response) rfl rfl
  constructor
  · rintro ⟨success, turns, logs, returned⟩
    exact initial.mp ⟨turns, success, trivial, logs, returned⟩
  · intro answers
    obtain ⟨turns, success, -, logs, returned⟩ := initial.mpr answers
    exact ⟨success, turns, logs, returned⟩

/-- A response that arrives in two pieces, the first of which ends inside the end of the header. -/
def splitEnd : Response :=
  ⟨[ascii "HTTP/1.1 200 OK\r\nContent-Length: 8\r\n", ascii "\r\n" ++ [1, 1, 0, 0, 0, 0, 0, 5]], none⟩

/-- The search for the end of the header stays where it is, and the second piece is never read. -/
theorem status_spins : ¬∃ success, Returns 5 (fun _ => 0) splitEnd success := by
  intro returns
  have place : ((Status.step 5)^[60] (.initial (fun _ => 0) splitEnd)).point = .seekEnd ∧
      ((Status.step 5)^[60] (.initial (fun _ => 0) splitEnd)).i + 1 =
        ((Status.step 5)^[60] (.initial (fun _ => 0) splitEnd)).datsz := by decide +kernel
  have stays := @Status.seekEnd_stays 5 _ place.1 (by omega) (by omega)
  obtain ⟨success, turns, returned⟩ := returns
  obtain le | le := Nat.le_total 60 turns
  · rw [iterate_of_halted le stays.symm, place.1] at returned
    cases returned
  · rw [iterate_of_halted le (step_of_returned returned), returned] at place
    cases place.1

end Apue.Printer
