import Apue.Printer.Parsing

/-! # The account of the buffer

`datsz` is meant to be the number of bytes in the buffer.  A machine that counts the bytes beside
the parser tells whether it is, and at each turn whether the bytes that the parser looks at or
overwrites lie below `datsz`.  Since `readmore` returns an end offset that is added to `datsz`, the
account is right only as long as nothing is received behind the first read of a response.
-/

namespace Apue.Printer

open Apue.Base

/-- The parser, and how many bytes have been received into the buffer. -/
structure Counted where
  status : Status
  received : Nat

/-- A turn of the parser; a response is received from the start of the buffer on. -/
def Counted.step (jobid : Int) (c : Counted) : Counted :=
  let next := c.status.step jobid
  let bytes := c.status.response.left - next.response.left
  ⟨next, if c.status.point = .respond then bytes else c.received + bytes⟩

def Counted.initial (heap : Nat → UInt8) (response : Response) : Counted :=
  ⟨.initial heap response, 0⟩

namespace Status

/-- The heads of the loops. -/
def loopHead : Point → Bool
  | .respond | .statusSpace | .statusDigits | .reason | .seekLength | .lengthSpace | .lengthDigits | .seekEnd => true
  | _ => false

/-- What the next turn looks at or overwrites has indices below `datsz`. -/
def Inside (s : Status) : Prop :=
  match s.point with
  | .respond | .afterLength | .foundEnd | .body | .returned _ => True
  | .statusSpace | .seekLength | .lengthSpace | .lengthDigits => s.cp < s.datsz
  -- `log_msg(bp)` reads up to a NUL
  | .statusDigits => s.cp < s.datsz ∧ (s.Garbled → ∃ k, k < s.datsz ∧ s.mem k = 0)
  -- an error code makes it write `bp[datsz]`
  | .reason =>
    s.cp < s.datsz ∧
      (s.Judged → httpInfo (atoi (slice s.mem s.start s.stop)) = true ∨
        httpSuccess (atoi (slice s.mem s.start s.stop)) = true)
  | .compareLength => lengthAt s.mem s.datsz s.cp ≠ none
  | .seekEnd => s.i + 2 < s.datsz → endAt s.mem s.datsz s.cp ≠ none
  | .header => s.cp + 8 ≤ s.datsz
  | .undefined => False

end Status

/-- The account is right: `datsz` at the heads of the loops, `cp` and `i` in the two searches, where
both are kept. -/
structure Counted.Accounts (c : Counted) : Prop where
  datsz : Status.loopHead c.status.point = true → c.status.datsz = c.received ∧
    c.status.datsz ≤ c.status.bufsz
  place : c.status.point = .seekLength ∨ c.status.point = .seekEnd → c.status.cp = c.status.i
  inside : c.status.Inside

namespace Status

/-! ## The condition -/

/-- Behind the number: no more is received there, and behind the empty line there are eight bytes of
data and of buffer, or no more comes when it is asked for. -/
def Closes (data : Data) (i : Nat) (len : Int) : Prop :=
  (i = data.datsz → data.refill i = none) ∧
    ∀ k, First (endAt data.mem data.datsz) i (data.datsz - 2) k →
      ∀ data₁, data.supply (k + 3) = some data₁ →
        ∀ data₂, data₁.complete (k + 3) len = some data₂ → k + 3 + 8 ≤ data₂.datsz ∧
          k + 3 + 8 ≤ data₂.bufsz

/-- The responses that the parser reads without leaving the data. -/
inductive Contained : (Nat → UInt8) → Response → Prop where
  | silent {mem : Nat → UInt8} {response : Response} : response.tread iobufsz = none → Contained mem response
  | garbled {mem : Nat → UInt8} {response rest : Response} {piece : Bytes} {start : Nat} :
      response.tread iobufsz = some (piece, rest) →
        Span isSpace (store mem 0 piece) piece.length 8 start →
      isDigit (store mem 0 piece start) = false → 0 ∈ piece → Contained (store mem 0 piece) rest →
        Contained mem response
  | informed {mem : Nat → UInt8} {response rest : Response} {piece : Bytes} {start stop eol : Nat} :
      response.tread iobufsz = some (piece, rest) →
        StatusLine (store mem 0 piece) piece.length start stop eol →
      httpInfo (atoi (slice (store mem 0 piece) start stop)) = true →
      Contained (cut (cut (store mem 0 piece) stop) eol) rest → Contained mem response
  | accepted {mem mem' : Nat → UInt8} {response rest : Response} {piece : Bytes} {start stop eol k first last : Nat} :
      response.tread iobufsz = some (piece, rest) →
        StatusLine (store mem 0 piece) piece.length start stop eol →
      httpSuccess (atoi (slice (store mem 0 piece) start stop)) = true →
      mem' = cut (cut (store mem 0 piece) stop) eol →
      First (lengthAt mem' piece.length) eol piece.length k →
        Number mem' piece.length (k + 15) first last →
      Closes ⟨cut mem' last, iobufsz, piece.length,
        rest⟩ (last + 1) (atoi (slice mem' first last)) → Contained mem response

/-! ## What the account asks for -/

section Accounts

variable {s : Status} {n : Nat}

/-- What is asked for where a line is logged or judged. -/
def Told (n : Nat) (s : Status) : Prop :=
  (s.Garbled → ∃ k, k < n ∧ s.mem k = 0) ∧
    (s.Judged → httpInfo (atoi (slice s.mem s.start s.stop)) = true ∨
      httpSuccess (atoi (slice s.mem s.start s.stop)) = true)

theorem accounts_scanning (data : s.datsz = n) (le : n ≤ s.bufsz)
    (scans : scanning s.point = true) :
    Counted.Accounts ⟨s, n⟩ ↔ s.cp < n ∧ Told n s := by
  constructor
  · intro accounts
    have inside := accounts.inside
    rw [← data]
    -- the five loops that look at one byte each
    cases point : s.point <;> simp [point, scanning] at scans <;> simp_all [Inside, Told,
      Garbled, Judged]
  · rintro ⟨inside, garbled, judged⟩
    constructor
    · intro _
      exact ⟨data, data ▸ le⟩
    · intro search
      obtain point | point := search
      · simp [show s.point = .seekLength from point, scanning] at scans
      · simp [show s.point = .seekEnd from point, scanning] at scans
    · rw [← data] at inside garbled
      cases point : s.point <;> simp [point, scanning] at scans <;> simp_all [Inside]

theorem accounts_seeking (data : s.datsz = n) (le : n ≤ s.bufsz) (k : Nat) :
    Counted.Accounts ⟨s.seeking k, n⟩ ↔ k < n := by
  constructor
  · intro accounts
    have inside := accounts.inside
    simpa [Inside, seeking, data] using inside
  · intro inside
    constructor
    · intro _
      exact ⟨data, data ▸ le⟩
    · intro _
      rfl
    · simpa [Inside, seeking, data] using inside

theorem accounts_compare (data : s.datsz = n) (point : s.point = .compareLength) :
    Counted.Accounts ⟨s, n⟩ ↔ lengthAt s.mem n s.cp ≠ none := by
  constructor
  · intro accounts
    have inside := accounts.inside
    simpa [Inside, point, data] using inside
  · intro compared
    constructor
    · simp [point, loopHead]
    · simp [point]
    · simpa [Inside, point, data] using compared

theorem accounts_ending (data : s.datsz = n) (le : n ≤ s.bufsz) (k : Nat) :
    Counted.Accounts ⟨s.ending k, n⟩ ↔ (k + 2 < n → endAt s.mem n k ≠ none) := by
  constructor
  · intro accounts
    have inside := accounts.inside
    simpa [Inside, ending, data] using inside
  · intro compared
    constructor
    · intro _
      exact ⟨data, data ▸ le⟩
    · intro _
      rfl
    · simpa [Inside, ending, data] using compared

theorem accounts_header (point : s.point = .header) :
    Counted.Accounts ⟨s, n⟩ ↔ s.cp + 8 ≤ s.datsz := by
  constructor
  · intro accounts
    have inside := accounts.inside
    simpa [Inside, point] using inside
  · intro inside
    constructor
    · simp [point, loopHead]
    · simp [point]
    · simpa [Inside, point] using inside

/-- Between the loops nothing is asked. -/
theorem accounts_between
    (between : s.point = .afterLength ∨ s.point = .foundEnd ∨ s.point = .body) :
    Counted.Accounts ⟨s, n⟩ := by
  obtain point | point | point := between
  all_goals
    constructor
    · simp [point, loopHead]
    · simp [point]
    · simp [Inside, point]

end Accounts

/-! ## Runs that keep the account -/

section Keeps

variable {jobid : Int} {s : Status} {n : Nat}

def Keeps (jobid : Int) (c : Counted) : Prop := ∀ turns, ((Counted.step jobid)^[turns] c).Accounts

theorem keeps_step {c : Counted} : Keeps jobid c ↔ c.Accounts ∧ Keeps jobid (c.step jobid) := by
  constructor
  · intro keeps
    exact ⟨keeps 0, fun turns => keeps (turns + 1)⟩
  · rintro ⟨accounts, keeps⟩ turns
    cases turns with
    | zero => exact accounts
    | succ turns => exact keeps turns

/-- A state that is its own successor. -/
theorem keeps_of_fixed (fixed : s.step jobid = s) (other : s.point ≠ .respond)
    (accounts : Counted.Accounts ⟨s, n⟩) :
    Keeps jobid ⟨s, n⟩ := by
  have same : Counted.step jobid ⟨s, n⟩ = ⟨s, n⟩ := by
    simp only [Counted.step, fixed, Nat.sub_self, Nat.add_zero]
    rw [if_neg other]
  intro turns
  rw [Function.iterate_fixed same]
  exact accounts

theorem keeps_returned {v : Nat} (point : s.point = .returned v) : Keeps jobid ⟨s, n⟩ := by
  apply keeps_of_fixed (step_of_returned point).symm (by simp [point])
  constructor
  · simp [point, loopHead]
  · simp [point]
  · simp [Inside, point]

theorem not_keeps_undefined (point : s.point = .undefined) : ¬Keeps jobid ⟨s, n⟩ := by
  intro keeps
  have inside := (keeps 0).inside
  simp [Inside, point] at inside

/-- A turn that receives nothing. -/
theorem counted_step (other : s.point ≠ .respond) (same : (s.step jobid).response = s.response) :
    Counted.step jobid ⟨s, n⟩ = ⟨s.step jobid, n⟩ := by
  simp only [Counted.step, same, Nat.sub_self, Nat.add_zero]
  rw [if_neg other]

theorem scanning_response (scans : scanning s.point = true) :
    (s.step jobid).response = s.response := by
  cases point : s.point <;> simp [point, scanning] at scans <;>
    simp [Status.step, point, peek, apply_ite Status.response]

/-- To keep the account the parser has to stay in the data. -/
theorem keeps_watch (jobid : Int) {bufsz n : Nat} (le : n ≤ bufsz) :
    Watch jobid n bufsz n (Told n) (fun s => Keeps jobid ⟨s, n⟩) where
  inside := le
  quiet s ungarbled unjudged :=
    ⟨fun garbled => absurd garbled ungarbled, fun judged => absurd judged unjudged⟩
  scans s size data scans := by
    have other : s.point ≠ .respond := by
      intro respond
      simp [respond, scanning] at scans
    rw [keeps_step, counted_step other (scanning_response scans),
      accounts_scanning data (size ▸ le) scans, and_assoc]
  seeks s k size data := by
    rw [keeps_step, accounts_seeking data (size ▸ le)]
    apply and_congr_right
    intro inside
    have room : k < s.bufsz := by omega
    have same : ((s.seeking k).step jobid).response = s.response := by
      simp [Status.step, seeking, peek, room, data, inside, apply_ite Status.response,
        Nat.not_le.mpr inside]
    rw [counted_step (by simp [seeking]) same]
  compares s size data point := by
    have same : (s.step jobid).response = s.response := by
      simp only [Status.step, point]
      split <;> rfl
    rw [keeps_step, counted_step (by simp [point]) same, accounts_compare data point]
  ends s k size data left := by
    have more : k + 2 < s.datsz := by omega
    have same : ((s.ending k).step jobid).response = s.response := by
      simp only [Status.step, ending, more, if_true]
      split <;> rfl
    rw [keeps_step, counted_step (by simp [ending]) same, accounts_ending data (size ▸ le)]
    simp only [left, true_implies]

/-! ## Behind the number -/

theorem keeps_header (point : s.point = .header) :
    Keeps jobid ⟨s, n⟩ ↔ s.cp + 8 ≤ s.datsz ∧ s.cp + 8 ≤ s.bufsz := by
  rw [keeps_step, accounts_header point]
  apply and_congr_right
  intro _
  by_cases room : s.cp + 8 ≤ s.bufsz
  · simp only [room, iff_true, Counted.step]
    simp only [Status.step, point, room, if_true]
    split <;> exact keeps_returned rfl
  · simp only [room, iff_false, Counted.step]
    apply not_keeps_undefined
    simp [Status.step, point, room]

theorem keeps_between (between : s.point = .afterLength ∨ s.point = .foundEnd ∨ s.point = .body) :
    Keeps jobid ⟨s, n⟩ ↔ Keeps jobid (Counted.step jobid ⟨s, n⟩) := by
  rw [keeps_step]
  exact and_iff_right (accounts_between between)

theorem keeps_body (place : s.cp = s.i) (point : s.point = .body) :
    Keeps jobid ⟨s, n⟩ ↔
      ∀ data, s.data.complete s.i s.len = some data → s.i + 8 ≤ data.datsz ∧
        s.i + 8 ≤ data.bufsz := by
  rw [keeps_between (.inr (.inr point)), Counted.step]
  simp only
  by_cases lacks : (s.datsz - s.i : Int) < s.len
  -- what is received here is counted wrongly, but no head of a loop follows
  · have turn : s.step jobid = s.readmore .header := by simp [Status.step, point, lacks]
    have more : s.data.complete s.i s.len = s.data.refill s.i := if_pos lacks
    rw [turn, more, readmore_eq]
    cases s.data.refill s.i with
    | none => simp [keeps_returned]
    | some data =>
      rw [keeps_header rfl]
      simp [resume]
  · have turn : s.step jobid = { s with point := .header } := by simp [Status.step, point, lacks]
    have enough : s.data.complete s.i s.len = some s.data := if_neg lacks
    rw [turn, enough, keeps_header rfl]
    simp [place, data]

theorem keeps_foundEnd (place : s.cp = s.i) (point : s.point = .foundEnd) :
    Keeps jobid ⟨s, n⟩ ↔ ∀ data₁, s.data.supply s.i = some data₁ →
      ∀ data₂, data₁.complete s.i s.len = some data₂ →
      s.i + 8 ≤ data₂.datsz ∧ s.i + 8 ≤ data₂.bufsz := by
  rw [keeps_between (.inr (.inl point)), Counted.step]
  simp only
  by_cases ends : s.i ≥ s.datsz
  · have turn : s.step jobid = s.readmore .body := by simp [Status.step, point, ends]
    have more : s.data.supply s.i = s.data.refill s.i := if_pos ends
    rw [turn, more, readmore_eq]
    cases s.data.refill s.i with
    | none => simp [keeps_returned]
    | some data =>
      rw [keeps_body rfl rfl]
      simp [resume, Status.data]
  · have turn : s.step jobid = { s with point := .body } := by simp [Status.step, point, ends]
    have same : s.data.supply s.i = some s.data := if_neg ends
    rw [turn, same, keeps_body (s := { s with point := .body }) place rfl]
    simp [data]

/-- A search for the end of the header that stays where it is keeps the account. -/
theorem keeps_spin (data : s.datsz = n) (le : n ≤ s.bufsz) {i : Nat} (left : i < n) :
    Keeps jobid ⟨s.ending (max i (n - 2)), n⟩ := by
  have last : ¬max i (n - 2) + 2 < s.datsz := by omega
  apply keeps_of_fixed (seekEnd_stays rfl last (by simp only [ending]; omega)) (by simp [ending])
  exact (accounts_ending data le _).mpr fun more => absurd more (data ▸ last)

theorem keeps_closes (le : s.datsz ≤ s.bufsz) (place : s.cp = s.i) (point : s.point = .afterLength)
    (behind : 0 < s.i)
    (inside : s.i ≤ s.datsz) : Keeps jobid ⟨s, s.datsz⟩ ↔ Closes s.data s.i s.len := by
  rw [keeps_between (.inl point)]
  by_cases ends : s.i = s.datsz
  · -- what is received here is counted too high at the next loop
    have turn : s.step jobid = s.readmore .seekEnd := by simp [Status.step, point, ends]
    have nowhere : ∀ k, ¬First (endAt s.mem s.datsz) s.i (s.datsz - 2) k := by
      intro k first
      have upper := Nat.lt_of_le_of_lt first.le first.inside
      omega
    rw [Counted.step]
    simp only
    rw [turn, readmore_eq]
    cases refills : s.data.refill s.i with
    | none =>
      exact iff_of_true (keeps_returned rfl) ⟨fun _ => refills,
        fun k first => absurd first (nowhere k)⟩
    | some data' =>
      have longer : data'.datsz = s.datsz + s.i + (s.response.left - data'.response.left) :=
        (refill_left refills).2.2
      simp only [point, reduceCtorEq, if_false]
      apply iff_of_false
      · intro keeps
        have counted := ((keeps 0).datsz rfl).1
        simp only [Function.iterate_zero, id, resume] at counted
        omega
      · intro closes
        rw [closes.1 ends] at refills
        cases refills
  · have turn : s.step jobid = s.ending s.i := by
      have more : ¬s.i ≥ s.datsz := by omega
      simp [Status.step, point, more, ending, place]
    rw [counted_step (by simp [point]) (by rw [turn]; rfl), turn,
      (@keeps_watch jobid s.bufsz s.datsz le).seekEnd rfl rfl s.i]
    -- otherwise the search runs inside the data, and stays below its end
    constructor
    · rintro (⟨k, first, keeps⟩ | ⟨missed, -⟩)
      · refine ⟨fun same => absurd same ends, fun k' first' => ?_⟩
        rw [← first.eq first']
        exact (keeps_foundEnd rfl rfl).mp keeps
      · exact ⟨fun same => absurd same ends, fun k' first' => absurd missed first'.not_missed⟩
    · rintro ⟨-, room⟩
      have answers : ∀ k, s.i ≤ k → k < s.datsz - 2 → endAt s.mem s.datsz k ≠ none := by
        intro k _ upper
        apply standsAt_ne_none
        simp only [List.length_cons, List.length_nil]
        omega
      obtain ⟨k, first⟩ | missed := first_or_missed answers
      · exact .inl ⟨k, first, (keeps_foundEnd rfl rfl).mpr (room k first)⟩
      · exact .inr ⟨missed, keeps_spin rfl le (by omega)⟩

/-! ## The whole response -/

/-- From the search for the field on. -/
theorem keeps_seeking (le : s.datsz ≤ s.bufsz) (i : Nat) :
    Keeps jobid ⟨s.seeking i, s.datsz⟩ ↔
      ∃ k start stop, First (lengthAt s.mem s.datsz) i s.datsz k ∧
        Number s.mem s.datsz (k + 15) start stop ∧
        Closes { s.data with mem := cut s.mem stop }
          (stop + 1) (atoi (slice s.mem start stop)) := by
  have watch := @keeps_watch jobid s.bufsz s.datsz le
  -- at the end of the data the search would look at the byte behind it
  have overruns : ¬Keeps jobid ⟨s.seeking (max i s.datsz), s.datsz⟩ := by
    rw [watch.seeks s _ rfl rfl]
    omega
  have number : ∀ k, Keeps jobid ⟨{ s with point := .lengthSpace, cp := k + 15, i := k }, s.datsz⟩ ↔
      ∃ start stop,
      Number s.mem s.datsz (k + 15) start stop ∧
        Closes { s.data with mem := cut s.mem stop }
          (stop + 1) (atoi (slice s.mem start stop)) := by
    intro k
    rw [watch.number (s := { s with point := .lengthSpace, cp := k + 15, i := k }) rfl rfl rfl]
    apply exists_congr
    intro start
    apply exists_congr
    intro stop
    apply and_congr_right
    intro number
    exact keeps_closes (s := measured { s with point := .lengthSpace, cp := k + 15, i := k } start
      stop) le rfl rfl
      (Nat.succ_pos _) number.digits.inside
  rw [watch.seek rfl rfl i]
  simp only [overruns, and_false, or_false, number]
  constructor
  · rintro ⟨k, first, start, stop, number, closes⟩
    exact ⟨k, start, stop, first, number, closes⟩
  · rintro ⟨k, start, stop, first, number, closes⟩
    exact ⟨k, first, start, stop, number, closes⟩

theorem mem_piece_iff {mem : Nat → UInt8} {piece : Bytes} {b : UInt8} :
    (∃ k, k < piece.length ∧ store mem 0 piece k = b) ↔ b ∈ piece := by
  rw [List.mem_iff_getElem]
  constructor
  · rintro ⟨k, inside, same⟩
    exact ⟨k, inside, (store_apply inside).symm.trans same⟩
  · rintro ⟨k, inside, same⟩
    exact ⟨k, inside, (store_apply inside).trans same⟩

/-- A line with an error code is judged by writing behind the data. -/
theorem keeps_judged {start stop eol : Nat} (le : s.datsz ≤ s.bufsz)
    (line : StatusLine s.mem s.datsz start stop eol) :
    (Told s.datsz (s.lined start stop eol) ∧
      Keeps jobid ⟨(s.lined start stop eol).step jobid, s.datsz⟩) ↔
      httpInfo (atoi (slice s.mem start stop)) = true ∧ Keeps jobid
        ⟨{ s with mem := cut (cut s.mem stop) eol, start := start, stop := stop, cp := eol, point := .respond }, s.datsz⟩ ∨
      httpSuccess (atoi (slice s.mem start stop)) = true ∧ Keeps jobid
        ⟨({ s with mem := cut (cut s.mem stop) eol, start := start, stop := stop, cp := eol } : Status).seeking eol,
          s.datsz⟩ := by
  have ungarbled : ¬(s.lined start stop eol).Garbled :=
    fun garbled => by simp [Garbled, lined] at garbled
  have judges : (s.lined start stop eol).Judged := by
    refine ⟨rfl, ?_⟩
    simp only [lined]
    rw [cut_behind eol line.reason.le line.reason.inside]
    exact line.reason.fails
  have code : slice (s.lined start stop eol).mem start stop = slice s.mem start stop := by
    apply slice_congr
    intro k _ upper
    simp only [lined]
    rw [cut_apply, if_neg (by omega)]
  have told : Told s.datsz (s.lined start stop eol) ↔
      httpInfo (atoi (slice s.mem start stop)) = true ∨
        httpSuccess (atoi (slice s.mem start stop)) = true := by
    rw [← code]
    exact ⟨fun told => told.2 judges, fun told => ⟨fun garbled => absurd garbled ungarbled,
      fun _ => told⟩⟩
  rw [told, lined_step line le]
  constructor
  · rintro ⟨info | success, keeps⟩
    · rw [judged_of_info info] at keeps
      exact .inl ⟨info, keeps⟩
    · rw [judged_of_success success] at keeps
      exact .inr ⟨success, keeps⟩
  · rintro (⟨info, keeps⟩ | ⟨success, keeps⟩)
    · rw [judged_of_info info]
      exact ⟨.inl info, keeps⟩
    · rw [judged_of_success success]
      exact ⟨.inr success, keeps⟩

theorem keeps_contained (point : s.point = .respond) (size : s.bufsz = iobufsz) (data : s.datsz = n)
    (le : n ≤ iobufsz) :
    Keeps jobid ⟨s, n⟩ ↔ Contained s.mem s.response := by
  -- on the bytes that are still to come
  induction remaining : s.response.left using Nat.strongRecOn generalizing s n with
  | ind left inductionHypothesis =>
    have accounts : Counted.Accounts ⟨s, n⟩ := by
      constructor
      · intro _
        exact ⟨data, by rw [data, size]; exact le⟩
      · simp [point]
      · simp [Inside, point]
    rw [keeps_step]
    simp only [accounts, true_and]
    cases reads : s.response.tread iobufsz with
    | none =>
      have turn : (s.step jobid).point = .returned 0 := by simp [Status.step, point, size, reads]
      exact iff_of_true (keeps_returned turn) (.silent reads)
    | some answer =>
      obtain ⟨piece, rest⟩ := answer
      obtain ⟨taken, nonempty, fits⟩ := tread_left reads
      have fewer : rest.left < left := by omega
      let mem := store s.mem 0 piece
      let t : Status := ⟨.statusSpace, mem, iobufsz, piece.length, 8, s.i, s.start, s.stop,
        s.len, rest⟩
      -- the first read of a response is counted right
      have turn : Counted.step jobid ⟨s, n⟩ = ⟨t, piece.length⟩ := by
        have step : s.step jobid = t := by simp [Status.step, point, size, reads, t, mem]
        have bytes : s.response.left - t.response.left = piece.length := by
          simp only [t]
          omega
        simp only [Counted.step, step, point, if_true, bytes]
      -- the two ways back to the first loop
      have again : ∀ mem cp i start stop len,
          Keeps jobid ⟨⟨.respond, mem, iobufsz, piece.length, cp, i, start, stop, len, rest⟩,
            piece.length⟩ ↔
            Contained mem rest :=
        fun mem cp i start stop len => inductionHypothesis _ fewer
          (s := ⟨.respond, mem, iobufsz, piece.length, cp, i, start, stop, len, rest⟩)
            rfl rfl rfl fits rfl
      rw [turn, (@keeps_watch jobid iobufsz piece.length fits).statusLine (s := t) rfl rfl rfl rfl]
      constructor
      · rintro (⟨start, blanks, noDigit, ⟨logged, -⟩, keeps⟩ | ⟨start, stop, eol, line, holds⟩)
        · exact .garbled reads blanks noDigit
            (mem_piece_iff.mp (logged ⟨rfl, rfl, noDigit⟩)) ((again _ _ _ _ _ _).mp keeps)
        · obtain ⟨info, keeps⟩ | ⟨success, keeps⟩ := (keeps_judged (s := t) fits line).mp holds
          · exact .informed reads line info ((again _ _ _ _ _ _).mp keeps)
          · obtain ⟨k, first, last, found, number, closes⟩ := (keeps_seeking (s := { t with
              mem := cut (cut t.mem stop) eol, start := start, stop := stop, cp := eol }) fits
                eol).mp keeps
            exact .accepted reads line success rfl found number closes
      · intro contained
        cases contained with
        | silent none =>
          rw [reads] at none
          cases none
        | garbled reads' blanks noDigit nul goesOn =>
          cases reads.symm.trans reads'
          have unjudged : ∀ start,
              ¬Judged { t with cp := start, start := start, point := .statusDigits } :=
            fun start judged => by simp [Judged] at judged
          refine .inl ⟨_, blanks, noDigit, ⟨fun _ => mem_piece_iff.mpr nul, fun judged => ?_⟩,
            (again _ _ _ _ _ _).mpr goesOn⟩
          exact absurd judged (unjudged _)
        | informed reads' line info goesOn =>
          cases reads.symm.trans reads'
          refine .inr ⟨_, _, _, line, (keeps_judged (s := t) fits line).mpr (.inl ⟨info, ?_⟩)⟩
          exact (again _ _ _ _ _ _).mpr goesOn
        | @accepted _ _ _ _ _ start stop eol _ _ _ reads' line success same found number closes =>
          cases reads.symm.trans reads'
          subst same
          refine .inr ⟨_, _, _, line, (keeps_judged (s := t) fits line).mpr (.inr ⟨success, ?_⟩)⟩
          exact (keeps_seeking (s := { t with mem := cut (cut t.mem stop) eol, start := start, stop := stop, cp := eol })
            fits eol).mpr ⟨_, _, _, found, number, closes⟩

end Keeps

end Status

/-- The account is right at every turn exactly on these responses. -/
theorem status_accounts_iff (jobid : Int) (heap : Nat → UInt8) (response : Response) :
    (∀ turns, ((Counted.step jobid)^[turns] (.initial heap response)).Accounts) ↔
      Status.Contained heap response :=
  Status.keeps_contained (s := .initial heap response) rfl rfl rfl (Nat.zero_le _)

/-- A response that arrives in two pieces, the first of which ends behind the carriage return of the
length. -/
def splitLength : Response :=
  ⟨[ascii "HTTP/1.1 200 OK\r\nContent-Length: 8\r", ascii "\n\r\n" ++ [1, 1, 0, 0, 0, 0, 0, 5]], none⟩

/-- The second piece is counted with everything that is in front of it. -/
theorem status_miscounts :
    ¬∀ turns, ((Counted.step 5)^[turns] (.initial (fun _ => 0) splitLength)).Accounts := by
  intro accounts
  have place : Status.loopHead ((Counted.step 5)^[19]
      (.initial (fun _ => 0) splitLength)).status.point = true ∧
      ((Counted.step 5)^[19] (.initial (fun _ => 0) splitLength)).received = 46 ∧
        ((Counted.step 5)^[19] (.initial (fun _ => 0) splitLength)).status.datsz = 81 := by
          decide +kernel
  have counted := ((accounts 19).datsz place.1).1
  omega

end Apue.Printer
