import Apue.Base.Scan
import Apue.Printer.Status

/-! # What the parser of the response finds

The loops of `printer_status` as spans and searches in the buffer.  A property of the states of the
machine that goes on from turn to turn as long as the bytes that are looked at lie below some limit
(a `Watch`) is a property of what the loops find below that limit: so it is for the runs that
return, where the limit is the size of the buffer, and for the runs that keep to the data, where it
is `datsz`.
-/

namespace Apue.Printer

open Apue.Base

/-! ## Texts in the buffer -/

section Texts

variable {fold : UInt8 → UInt8} {mem mem' : Nat → UInt8} {limit limit' start k : Nat} {text : Bytes}

/-- A comparison that ends below the limit ends in the same way with more room. -/
theorem standsAt_mono {answer : Bool} (le : limit ≤ limit')
    (compared : standsAt fold mem limit k text = some answer) :
    standsAt fold mem limit' k text = some answer := by
  induction text generalizing k with
  | nil => exact compared
  | cons b text inductionHypothesis =>
    rw [standsAt] at compared ⊢
    split at compared
    · rw [if_pos (Nat.lt_of_lt_of_le ‹_› le)]
      split at compared
      · rw [if_pos ‹_›]
        exact inductionHypothesis compared
      · rw [if_neg ‹_›]
        exact compared
    · cases compared

/-- Enough room for the text. -/
theorem standsAt_ne_none (room : k + text.length ≤ limit) :
    standsAt fold mem limit k text ≠ none := by
  induction text generalizing k with
  | nil => simp [standsAt]
  | cons b text inductionHypothesis =>
    rw [List.length_cons] at room
    rw [standsAt, if_pos (by omega)]
    split
    · exact inductionHypothesis (by omega)
    · simp

/-- The name of the field starts with a letter that the search stops at. -/
theorem strncasecmp_of_ne (inside : k < limit) (upper : mem k ≠ 67) (lower : mem k ≠ 99) :
    strncasecmp mem limit k Status.contentLength = some false := by
  have differs : toLower (mem k) ≠ toLower 67 := by
    rw [show toLower 67 = 99 by decide, toLower]
    -- a letter in upper case is folded to another one
    split
    · intro same
      apply upper
      have value := congrArg UInt8.toNat same
      rw [← UInt8.toNat_inj]
      simp only [UInt8.toNat_add] at value
      have bounds := ‹65 ≤ mem k ∧ mem k ≤ 90›
      simp only [UInt8.le_iff_toNat_le] at bounds
      simp at value bounds ⊢
      omega
    · exact lower
  rw [strncasecmp, show Status.contentLength = 67 :: ascii "ontent-Length:" by decide, standsAt, if_pos inside, if_neg differs]

end Texts

theorem store_apply {mem : Nat → UInt8} {piece : Bytes} {k : Nat} (inside : k < piece.length) :
    store mem 0 piece k = piece[k] := by
  rw [store, if_pos (Nat.zero_le k), Nat.sub_zero, List.getD_eq_getElem?_getD,
    List.getElem?_eq_getElem inside,
    Option.getD_some]

theorem holds_store (mem : Nat → UInt8) (piece : Bytes) : Holds (store mem 0 piece) 0 piece := by
  apply holds_of_apply
  intro k inside
  rw [Nat.zero_add]
  exact store_apply inside

/-- The text ends at `k`. -/
def cut (mem : Nat → UInt8) (k : Nat) : Nat → UInt8 := store mem k [0]

theorem cut_apply (mem : Nat → UInt8) (k j : Nat) : cut mem k j = if j = k then 0 else mem j := by
  unfold cut store
  by_cases behind : k ≤ j
  · rw [if_pos behind]
    obtain rfl | later := Nat.eq_or_lt_of_le behind
    · simp
    · rw [if_neg (by omega), List.getD_eq_getElem?_getD, List.getElem?_eq_none (by simp; omega),
        Option.getD_none]
  · rw [if_neg behind, if_neg (by omega)]

/-- Behind its end a text is as it was. -/
theorem cut_behind {mem : Nat → UInt8} {k limit : Nat} (j : Nat) (lower : k + 1 ≤ j)
    (_ : j < limit) :
    cut mem k j = mem j := by
  rw [cut_apply, if_neg (by omega)]

theorem slice_congr {mem mem' : Nat → UInt8} {start stop : Nat}
    (same : ∀ k, start ≤ k → k < stop → mem k = mem' k) :
    slice mem start stop = slice mem' start stop := by
  apply List.map_congr_left
  intro k member
  rw [List.mem_range] at member
  exact same (start + k) (by omega) (by omega)

/-- A byte of the line. -/
def inLine (c : UInt8) : Bool := c ≠ 13 && c ≠ 10

/-- A status line, the version apart: the code is from `start` to `stop`, the reason from behind
that to `eol`. -/
structure StatusLine (mem : Nat → UInt8) (limit start stop eol : Nat) : Prop where
  blanks : Span isSpace mem limit 8 start
  digits : Span isDigit mem limit start stop
  nonempty : start ≠ stop
  reason : Span inLine mem limit (stop + 1) eol

/-- The number behind a name that ends at `k`; it may have no digits. -/
structure Number (mem : Nat → UInt8) (limit k start stop : Nat) : Prop where
  blanks : Span isSpace mem limit k start
  digits : Span isDigit mem limit start stop

theorem Number.exists_iff {mem : Nat → UInt8} {limit k start stop : Nat} {R : Nat → Nat → Prop}
    (number : Number mem limit k start stop) :
    (∃ start stop, Number mem limit k start stop ∧ R start stop) ↔ R start stop := by
  constructor
  · rintro ⟨start', stop', number', holds⟩
    obtain rfl := number.blanks.eq number'.blanks
    obtain rfl := number.digits.eq number'.digits
    exact holds
  · intro holds
    exact ⟨start, stop, number, holds⟩

/-- Where `Content-Length:` stands, in upper or lower case. -/
def lengthAt (mem : Nat → UInt8) (limit k : Nat) : Option Bool :=
  strncasecmp mem limit k Status.contentLength

/-- Where an empty line ends the header. -/
def endAt (mem : Nat → UInt8) (limit k : Nat) : Option Bool := standsAt id mem limit k [10, 13, 10]

/-! ## The bytes that are left -/

/-- How many bytes are still to come. -/
def Response.left (response : Response) : Nat := response.pieces.flatten.length

theorem tread_left {response rest : Response} {nbytes : Nat} {piece : Bytes}
    (reads : response.tread nbytes = some (piece, rest)) :
    response.left = piece.length + rest.left ∧ 0 < piece.length ∧ piece.length ≤ nbytes := by
  unfold Response.tread at reads
  cases pieces : response.pieces with
  | nil => simp [pieces] at reads
  | cons first others =>
    simp only [pieces] at reads
    split at reads
    · cases reads
    · rename_i nonempty
      simp only [Option.some.injEq, Prod.mk.injEq] at reads
      obtain ⟨rfl, rfl⟩ := reads
      have whole : (first.take nbytes).length + (first.drop nbytes).length = first.length := by
        rw [← List.length_append, List.take_append_drop]
      refine ⟨?_, List.length_pos_iff.mpr nonempty, by simp⟩
      unfold Response.left
      simp only [pieces, List.flatten_cons, List.length_append]
      -- what is left of the piece goes in front of the others, if there is any
      split
      · rename_i empty
        rw [empty, List.length_nil] at whole
        omega
      · simp only [List.flatten_cons, List.length_append]
        omega

namespace Status

/-! ## The turns of the parser -/

/-- The loops over blanks, digits and the reason. -/
def scanning : Point → Bool
  | .statusSpace | .statusDigits | .reason | .lengthSpace | .lengthDigits => true
  | _ => false

/-- The line ends, and what becomes of it depends on its code. -/
def Judged (s : Status) : Prop := s.point = .reason ∧ inLine (s.mem s.cp) = false

/-- The search for the field stands at `k`. -/
def seeking (s : Status) (k : Nat) : Status := { s with point := .seekLength, cp := k, i := k }

/-- The search for the end of the header stands at `k`. -/
def ending (s : Status) (k : Nat) : Status := { s with point := .seekEnd, cp := k, i := k }

/-- The code that starts at `start` and ends at `stop`, and a line that ends at `eol`. -/
def lined (s : Status) (start stop eol : Nat) : Status :=
  { s with mem := cut s.mem stop, start := start, stop := stop, cp := eol, point := .reason }

/-- What becomes of a line that ends at `eol`. -/
def judged (s : Status) (start stop eol : Nat) : Status :=
  let code := atoi (slice s.mem start stop)
  let s := { s with mem := cut (cut s.mem stop) eol, start := start, stop := stop, cp := eol }
  if httpInfo code then { s with point := .respond }
  else if httpSuccess code then s.seeking eol
  else if s.datsz < s.bufsz then { s with point := .returned 0 }
  else { s with point := .undefined }

/-- The number has been read. -/
def measured (s : Status) (start stop : Nat) : Status :=
  { s with
    mem := cut s.mem stop
    start := start
    stop := stop
    cp := stop + 1
    i := stop + 1
    len := atoi (slice s.mem start stop)
    point := .afterLength }

/-- `P` goes on from turn to turn while the parser looks below the limit; where a line is logged or
judged it asks for `E` too. -/
structure Watch (jobid : Int) (limit bufsz datsz : Nat) (E P : Status → Prop) : Prop where
  inside : limit ≤ bufsz
  quiet : ∀ s : Status, ¬s.Garbled → ¬s.Judged → E s
  scans : ∀ s : Status, s.bufsz = bufsz → s.datsz = datsz → scanning s.point = true →
    (P s ↔ s.cp < limit ∧ E s ∧ P (s.step jobid))
  seeks : ∀ (s : Status) (k : Nat), s.bufsz = bufsz → s.datsz = datsz →
    (P (s.seeking k) ↔ k < limit ∧ P ((s.seeking k).step jobid))
  compares : ∀ s : Status, s.bufsz = bufsz → s.datsz = datsz → s.point = .compareLength →
    (P s ↔ lengthAt s.mem limit s.cp ≠ none ∧ P (s.step jobid))
  ends : ∀ (s : Status) (k : Nat), s.bufsz = bufsz → s.datsz = datsz → k + 2 < datsz →
    (P (s.ending k) ↔ endAt s.mem limit k ≠ none ∧ P ((s.ending k).step jobid))

section Phases

variable {jobid : Int} {limit bufsz datsz : Nat} {E P : Status → Prop} {s : Status}

/-- A loop over bytes of one kind. -/
theorem Watch.scan (watch : Watch jobid limit bufsz datsz E P) (size : s.bufsz = bufsz)
    (data : s.datsz = datsz)
    (scans : scanning s.point = true) {test : UInt8 → Bool}
    (advances : ∀ k, k < s.bufsz → test (s.mem k) = true →
    ({ s with cp := k } : Status).step jobid = { s with cp := k + 1 })
    (quiet : ∀ k, test (s.mem k) = true → E { s with cp := k }) :
    P s ↔ ∃ stop, Span test s.mem limit s.cp stop ∧ E { s with cp := stop } ∧
      P (({ s with cp := stop } : Status).step jobid) := by
  apply @scan_iff _ test s.mem limit (fun k => P { s with cp := k })
  intro k
  simp only [watch.scans { s with cp := k } size data scans]
  apply and_congr_right
  intro inside
  cases passes : test (s.mem k) with
  | false => simp
  | true => simp [advances k (by have := watch.inside; omega) passes, quiet k passes]

/-- A loop that neither logs nor judges. -/
theorem Watch.pass (watch : Watch jobid limit bufsz datsz E P) (size : s.bufsz = bufsz)
    (data : s.datsz = datsz)
    (scans : scanning s.point = true) {test : UInt8 → Bool} (next : Nat → Status)
    (advances : ∀ k, k < s.bufsz → test (s.mem k) = true →
    ({ s with cp := k } : Status).step jobid = { s with cp := k + 1 })
    (leaves : ∀ k, k < s.bufsz → test (s.mem k) = false →
    ({ s with cp := k } : Status).step jobid = next k)
    (unlogged : s.point ≠ .statusDigits) (unjudged : s.point ≠ .reason) :
    P s ↔ ∃ stop, Span test s.mem limit s.cp stop ∧ P (next stop) := by
  have quiet : ∀ k, E { s with cp := k } := fun k =>
    watch.quiet _ (fun garbled => unlogged garbled.1) (fun judged => unjudged judged.1)
  rw [watch.scan size data scans advances fun k _ => quiet k]
  apply exists_congr
  intro stop
  apply and_congr_right
  intro span
  rw [leaves stop (by have := span.inside; have := watch.inside; omega) span.fails]
  simp [quiet stop]

theorem Watch.statusSpace (watch : Watch jobid limit bufsz datsz E P) (size : s.bufsz = bufsz)
    (data : s.datsz = datsz)
    (point : s.point = .statusSpace) :
    P s ↔ ∃ start, Span isSpace s.mem limit s.cp start ∧
      P { s with cp := start, start := start, point := .statusDigits } := by
  apply watch.pass size data (by rw [point]; rfl)
    (fun k => { s with cp := k, start := k, point := .statusDigits })
  · intro k inside passes
    simp [Status.step, point, peek, inside, passes]
  · intro k inside fails
    simp [Status.step, point, peek, inside, fails]
  · simp [point]
  · simp [point]

theorem Watch.statusDigits (watch : Watch jobid limit bufsz datsz E P) (size : s.bufsz = bufsz)
    (data : s.datsz = datsz)
    (point : s.point = .statusDigits) (begins : s.cp = s.start) (inside : s.start < limit) :
    P s ↔
      (isDigit (s.mem s.start) = false ∧ E s ∧ P { s with point := .respond }) ∨
      ∃ stop, Span isDigit s.mem limit s.start stop ∧ s.start ≠ stop ∧
        P { s with mem := cut s.mem stop, stop := stop, cp := stop + 1, point := .reason } := by
  have room : s.start < s.bufsz := by have := watch.inside; omega
  -- no digit at all is what logs the line
  cases first : isDigit (s.mem s.start) with
  | false =>
    have here : Span isDigit s.mem limit s.start s.start :=
      ⟨Nat.le_refl _, inside, fun k lower upper => by omega, first⟩
    have leaves : s.step jobid = { s with point := .respond } := by
      simp [Status.step, point, peek, begins, room, first]
    have nowhere : ¬∃ stop, Span isDigit s.mem limit s.start stop ∧ s.start ≠ stop ∧
        P { s with mem := cut s.mem stop, stop := stop, cp := stop + 1, point := .reason } := by
      rintro ⟨stop, span, differ, -⟩
      exact differ (here.eq span)
    rw [watch.scans s size data (by rw [point]; rfl), leaves]
    simp [nowhere, begins, inside]
  | true =>
    rw [@Watch.scan _ _ _ _ _ _ _ watch size data (by rw [point]; rfl) isDigit]
    · simp only [begins, Bool.true_eq_false, false_and, false_or]
      apply exists_congr
      intro stop
      apply and_congr_right
      intro span
      have behind : s.start ≠ stop := by
        rintro rfl
        rw [span.fails] at first
        cases first
      -- behind at least one digit nothing is logged
      have quiet : E { s with cp := stop } :=
        watch.quiet _ (fun garbled => behind garbled.2.1.symm)
          (fun judged => by simp [Judged, point] at judged)
      have leaves : ({ s with cp := stop } : Status).step jobid =
          { s with mem := cut s.mem stop, stop := stop, cp := stop + 1, point := .reason } := by
        have roomy : stop < s.bufsz := by have := span.inside; have := watch.inside; omega
        simp [Status.step, point, peek, roomy, span.fails, Ne.symm behind, cut]
      rw [leaves]
      simp [quiet, behind]
    · intro k roomy passes
      simp [Status.step, point, peek, roomy, passes]
    · intro k passes
      apply watch.quiet
      · intro garbled
        have fails := garbled.2.2
        simp [passes] at fails
      · simp [Judged, point]

theorem Watch.reason (watch : Watch jobid limit bufsz datsz E P) (size : s.bufsz = bufsz)
    (data : s.datsz = datsz)
    (point : s.point = .reason) :
    P s ↔ ∃ eol, Span inLine s.mem limit s.cp eol ∧ E { s with cp := eol } ∧
      P (({ s with cp := eol } : Status).step jobid) := by
  apply watch.scan size data (by rw [point]; rfl)
  · intro k inside passes
    simp only [inLine, Bool.and_eq_true, decide_eq_true_eq] at passes
    simp [Status.step, point, peek, inside, passes]
  · intro k passes
    apply watch.quiet
    · simp [Garbled, point]
    · simp [Judged, passes]

/-- The status line: without a number it is logged, with one it is judged. -/
theorem Watch.statusLine (watch : Watch jobid limit bufsz datsz E P) (size : s.bufsz = bufsz)
    (data : s.datsz = datsz)
    (point : s.point = .statusSpace) (cp : s.cp = 8) :
    P s ↔
      (∃ start, Span isSpace s.mem limit 8 start ∧ isDigit (s.mem start) = false ∧
        E { s with cp := start, start := start, point := .statusDigits } ∧
        P { s with cp := start, start := start, point := .respond }) ∨
      ∃ start stop eol, StatusLine s.mem limit start stop eol ∧ E (s.lined start stop eol) ∧
        P ((s.lined start stop eol).step jobid) := by
  rw [watch.statusSpace size data point, cp, ← exists_or]
  apply exists_congr
  intro start
  have digits_iff := fun inside =>
    watch.statusDigits (s := { s with cp := start, start := start, point := .statusDigits }) size
      data rfl rfl inside
  have reason_iff := fun stop => watch.reason
    (s := { s with mem := cut s.mem stop, start := start, stop := stop, cp := stop + 1, point := .reason }) size data rfl
  constructor
  · rintro ⟨blanks, holds⟩
    obtain ⟨noDigit, logged, next⟩ | ⟨stop, digits, nonempty, next⟩ :=
      (digits_iff blanks.inside).mp holds
    · exact .inl ⟨blanks, noDigit, logged, next⟩
    · obtain ⟨eol, reason, judged, next⟩ := (reason_iff stop).mp next
      exact .inr ⟨stop, eol, ⟨blanks, digits, nonempty, reason.congr cut_behind⟩, judged, next⟩
  · rintro (⟨blanks, noDigit, logged, next⟩ | ⟨stop, eol, line, judged, next⟩)
    · exact ⟨blanks, (digits_iff blanks.inside).mpr (.inl ⟨noDigit, logged, next⟩)⟩
    · have reason := line.reason.congr fun k lower upper =>
        (@cut_behind s.mem _ _ k lower upper).symm
      refine ⟨line.blanks,
        (digits_iff line.blanks.inside).mpr (.inr ⟨stop, line.digits, line.nonempty, ?_⟩)⟩
      exact (reason_iff stop).mpr ⟨eol, reason, judged, next⟩

/-- Where there is a status line it is the one that is judged. -/
theorem Watch.statusLine_of (watch : Watch jobid limit bufsz datsz E P) (size : s.bufsz = bufsz)
    (data : s.datsz = datsz)
    (point : s.point = .statusSpace) (cp : s.cp = 8) {start stop eol : Nat}
    (line : StatusLine s.mem limit start stop eol) :
    P s ↔ E (s.lined start stop eol) ∧ P ((s.lined start stop eol).step jobid) := by
  rw [watch.statusLine size data point cp]
  constructor
  · rintro (⟨start', blanks, noDigit, -⟩ | ⟨start', stop', eol', line', holds⟩)
    · have digit := line.digits.passes start (Nat.le_refl _)
        (Nat.lt_of_le_of_ne line.digits.le line.nonempty)
      rw [line.blanks.eq blanks, noDigit] at digit
      cases digit
    · obtain rfl := line.blanks.eq line'.blanks
      obtain rfl := line.digits.eq line'.digits
      obtain rfl := line.reason.eq line'.reason
      exact holds
  · intro holds
    exact .inr ⟨start, stop, eol, line, holds⟩

theorem lined_step {start stop eol : Nat} (line : StatusLine s.mem limit start stop eol)
    (room : limit ≤ s.bufsz) :
    (s.lined start stop eol).step jobid = s.judged start stop eol := by
  have inside : eol < s.bufsz := Nat.lt_of_lt_of_le line.reason.inside room
  have ends : store s.mem stop [0] eol = s.mem eol :=
    cut_behind eol line.reason.le line.reason.inside
  -- the line ends at one of the two characters
  have ended : s.mem eol ≠ 13 → s.mem eol = 10 := by
    have fails := line.reason.fails
    simp only [inLine, Bool.and_eq_false_iff, decide_eq_false_iff_not, Decidable.not_not] at fails
    intro other
    exact fails.resolve_left other
  -- neither NUL is written into the code
  have code : slice (store (store s.mem stop [0]) eol [0]) start stop = slice s.mem start stop := by
    apply slice_congr
    intro k lower upper
    have before : k < eol := by have := line.reason.le; omega
    rw [← cut, ← cut, cut_apply, cut_apply, if_neg (by omega), if_neg (by omega)]
  by_cases cr : s.mem eol = 13
  · simp [Status.step, lined, peek, inside, ends, cr, code, judged, seeking, cut]
    rfl
  · simp [Status.step, lined, peek, inside, ends, ended cr, code, judged, seeking, cut]
    rfl

theorem httpSuccess_not_info {code : Int} (success : httpSuccess code = true) :
    httpInfo code = false := by
  simp only [httpSuccess, httpInfo, Bool.and_eq_true, decide_eq_true_eq, Bool.and_eq_false_iff,
    decide_eq_false_iff_not] at success ⊢
  omega

section Judged

variable {start stop eol : Nat}

theorem judged_of_info (info : httpInfo (atoi (slice s.mem start stop)) = true) :
    s.judged start stop eol =
      { s with mem := cut (cut s.mem stop) eol, start := start, stop := stop, cp := eol, point := .respond } := if_pos info

theorem judged_of_success (success : httpSuccess (atoi (slice s.mem start stop)) = true) :
    s.judged start stop eol =
      ({ s with mem := cut (cut s.mem stop) eol, start := start, stop := stop, cp := eol } : Status).seeking eol :=
  (if_neg (by simp [httpSuccess_not_info success])).trans (if_pos success)

theorem judged_of_error (info : httpInfo (atoi (slice s.mem start stop)) = false)
    (error : httpSuccess (atoi (slice s.mem start stop)) = false) :
    (s.judged start stop eol).point = if s.datsz < s.bufsz then .returned 0 else .undefined := by
  have judged : s.judged start stop eol = _ :=
    (if_neg (by simp [info])).trans (if_neg (by simp [error]))
  rw [judged]
  simp only
  split <;> rfl

end Judged

/-! ## The search for the length -/

theorem Watch.compare_turn (watch : Watch jobid limit bufsz datsz E P) (size : s.bufsz = bufsz)
    (data : s.datsz = datsz)
    (k : Nat) :
    P { s with point := .compareLength, cp := k, i := k } ↔
      lengthAt s.mem limit k = some true ∧
        P { s with point := .lengthSpace, cp := k + 15, i := k } ∨
      lengthAt s.mem limit k = some false ∧ P (s.seeking (k + 1)) := by
  rw [watch.compares { s with point := .compareLength, cp := k, i := k } size data rfl]
  cases compared : lengthAt s.mem limit k with
  | none => simp
  | some answer =>
    -- the comparison goes as it does with the whole buffer to look at
    have same : strncasecmp s.mem s.bufsz k contentLength = some answer :=
      standsAt_mono (by have := watch.inside; omega) compared
    cases answer <;> simp [Status.step, same, seeking]

theorem Watch.seek_turn (watch : Watch jobid limit bufsz datsz E P) (size : s.bufsz = bufsz)
    (data : s.datsz = datsz) {k : Nat}
    (left : k < datsz) :
    P (s.seeking k) ↔ P { s with point := .compareLength, cp := k, i := k } := by
  rw [watch.seeks s k size data]
  by_cases inside : k < limit
  · have room : k < s.bufsz := by have := watch.inside; omega
    by_cases letter : s.mem k = 67 ∨ s.mem k = 99
    · have turn : (s.seeking k).step jobid = { s with point := .compareLength, cp := k, i := k } := by
        have more : ¬datsz ≤ k := by omega
        obtain upper | lower := letter
        · simp [Status.step, seeking, peek, room, data, more, upper]
        · simp [Status.step, seeking, peek, room, data, more, lower]
      rw [turn]
      simp [inside]
    · -- another character would have compared as different
      have other := not_or.mp letter
      have turn : (s.seeking k).step jobid = s.seeking (k + 1) := by
        simp [Status.step, seeking, peek, room, other, data, left]
      have misses : lengthAt s.mem limit k = some false := strncasecmp_of_ne inside other.1 other.2
      rw [watch.compare_turn size data, turn, misses]
      simp [inside]
  -- neither the test of the letter nor the comparison can look there
  · have beyond : lengthAt s.mem limit k = none := by
      rw [lengthAt, strncasecmp, show contentLength = 67 :: ascii "ontent-Length:" by decide, standsAt, if_neg inside]
    rw [watch.compare_turn size data, beyond]
    simp [inside]

/-- The search ends at the name of the field, or at the end of the data. -/
theorem Watch.seek (watch : Watch jobid limit bufsz datsz E P) (size : s.bufsz = bufsz)
    (data : s.datsz = datsz) (i : Nat) :
    P (s.seeking i) ↔
      (∃ k, First (lengthAt s.mem limit) i datsz k ∧
        P { s with point := .lengthSpace, cp := k + 15, i := k }) ∨
      Missed (lengthAt s.mem limit) i datsz ∧ P (s.seeking (max i datsz)) := by
  apply @search_iff _ _ (fun k => P (s.seeking k))
  intro k _ left
  rw [watch.seek_turn size data left, watch.compare_turn size data]

theorem Watch.number (watch : Watch jobid limit bufsz datsz E P) (size : s.bufsz = bufsz)
    (data : s.datsz = datsz)
    (point : s.point = .lengthSpace) :
    P s ↔ ∃ start stop, Number s.mem limit s.cp start stop ∧ P (s.measured start stop) := by
  have blanks_iff : P s ↔ ∃ start, Span isSpace s.mem limit s.cp start ∧
      P { s with cp := start, start := start, point := .lengthDigits } := by
    apply watch.pass size data (by rw [point]; rfl)
      (fun k => { s with cp := k, start := k, point := .lengthDigits })
    · intro k inside passes
      simp [Status.step, point, peek, inside, passes]
    · intro k inside fails
      simp [Status.step, point, peek, inside, fails]
    · simp [point]
    · simp [point]
  have digits_iff : ∀ start, P { s with cp := start, start := start, point := .lengthDigits } ↔
      ∃ stop, Span isDigit s.mem limit start stop ∧ P (s.measured start stop) := by
    intro start
    apply watch.pass (s := { s with cp := start, start := start, point := .lengthDigits })
      size data rfl
      (fun k => s.measured start k)
    · intro k inside passes
      simp [Status.step, peek, inside, passes]
    · intro k inside fails
      simp [Status.step, peek, inside, fails, measured, cut]
    · simp
    · simp
  simp only [blanks_iff, digits_iff]
  apply exists_congr
  intro start
  constructor
  · rintro ⟨blanks, stop, digits, holds⟩
    exact ⟨stop, ⟨blanks, digits⟩, holds⟩
  · rintro ⟨stop, number, holds⟩
    exact ⟨number.blanks, stop, number.digits, holds⟩

/-! ## The search for the end of the header -/

theorem Watch.end_turn (watch : Watch jobid limit bufsz datsz E P) (size : s.bufsz = bufsz)
    (data : s.datsz = datsz) {k : Nat}
    (left : k + 2 < datsz) :
    P (s.ending k) ↔
      endAt s.mem limit k = some true ∧ P { s with point := .foundEnd, cp := k + 3, i := k + 3 } ∨
      endAt s.mem limit k = some false ∧ P (s.ending (k + 1)) := by
  rw [watch.ends s k size data left]
  cases compared : endAt s.mem limit k with
  | none => simp
  | some answer =>
    have same : standsAt id s.mem s.bufsz k [10, 13, 10] = some answer :=
      standsAt_mono (by have := watch.inside; omega) compared
    have more : k + 2 < s.datsz := by omega
    cases answer <;> simp [Status.step, ending, more, same]

/-- The search ends at the empty line, or two bytes before the end of the data. -/
theorem Watch.seekEnd (watch : Watch jobid limit bufsz datsz E P) (size : s.bufsz = bufsz)
    (data : s.datsz = datsz) (i : Nat) :
    P (s.ending i) ↔
      (∃ k, First (endAt s.mem limit) i (datsz - 2) k ∧
        P { s with point := .foundEnd, cp := k + 3, i := k + 3 }) ∨
      Missed (endAt s.mem limit) i (datsz - 2) ∧ P (s.ending (max i (datsz - 2))) := by
  apply @search_iff _ _ (fun k => P (s.ending k))
  intro k _ left
  exact watch.end_turn size data (by omega)

/-- One or two bytes before the end of the data the search stays where it is. -/
theorem seekEnd_stays (point : s.point = .seekEnd) (last : ¬s.i + 2 < s.datsz)
    (left : ¬s.i ≥ s.datsz) : s.step jobid = s := by
  unfold Status.step
  rw [point]
  exact (if_neg last).trans (if_neg left)

end Phases

/-! ## More data -/

/-- The buffer and what it has in it. -/
structure Data where
  mem : Nat → UInt8
  bufsz : Nat
  datsz : Nat
  response : Response

/-- The size of the buffer for a read at `i`. -/
def Data.grown (data : Data) (i : Nat) : Nat :=
  if i ≥ data.bufsz then data.bufsz + iobufsz else data.bufsz

/-- What `readmore` at `i` and its caller make of the buffer. -/
def Data.refill (data : Data) (i : Nat) : Option Data :=
  match data.response.tread (data.grown i - i) with
  | none => none
  | some (piece, response) =>
    some ⟨store data.mem i piece, data.grown i, data.datsz + (i + piece.length), response⟩

/-- What is got has left the connection, and the data goes on behind `i`, further than it should. -/
theorem refill_left {data data' : Data} {i : Nat} (refills : data.refill i = some data') :
    i < data'.datsz ∧ data'.response.left < data.response.left ∧
      data'.datsz = data.datsz + i + (data.response.left - data'.response.left) := by
  unfold Data.refill at refills
  cases reads : data.response.tread (data.grown i - i) with
  | none => simp [reads] at refills
  | some answer =>
    obtain ⟨split, nonempty, -⟩ := tread_left reads
    simp only [reads, Option.some.injEq] at refills
    rw [← refills]
    simp only
    omega

/-- More is read when the data ends at `i`. -/
def Data.supply (data : Data) (i : Nat) : Option Data :=
  if i ≥ data.datsz then data.refill i else some data

/-- More is read when the body is not all there. -/
def Data.complete (data : Data) (i : Nat) (len : Int) : Option Data :=
  if (data.datsz - i : Int) < len then data.refill i else some data

def data (s : Status) : Data := ⟨s.mem, s.bufsz, s.datsz, s.response⟩

/-- The state goes on with this data. -/
def resume (s : Status) (data : Data) (next : Point) : Status :=
  { s with
    mem := data.mem
    bufsz := data.bufsz
    datsz := data.datsz
    response := data.response
    cp := s.i
    point := next }

theorem readmore_eq (s : Status) (next : Point) :
    s.readmore next =
      match s.data.refill s.i with
      | none => { s with bufsz := s.data.grown s.i, point := .returned 0 }
      | some data => s.resume data next := by
  unfold readmore Data.refill
  cases reads : s.response.tread (s.data.grown s.i - s.i) with
  | none =>
    have reads' : s.response.tread ((if s.i ≥ s.bufsz then s.bufsz + iobufsz else s.bufsz) - s.i) =
      none := reads
    simp only [reads']
    have same : s.data.response.tread (s.data.grown s.i - s.i) = none := reads
    simp only [same]
    rfl
  | some answer =>
    have reads' : s.response.tread ((if s.i ≥ s.bufsz then s.bufsz + iobufsz else s.bufsz) - s.i) =
      some answer := reads
    simp only [reads']
    have same : s.data.response.tread (s.data.grown s.i - s.i) = some answer := reads
    simp only [same]
    rfl

/-! ## Runs that return -/

section Settles

variable {jobid : Int} {E : Status → Prop} {V : Nat → Prop} {s : Status} {v : Nat}

/-- The run from this state returns such a value, and every state before meets `E`. -/
def Settles (jobid : Int) (E : Status → Prop) (V : Nat → Prop) (s : Status) : Prop :=
  ∃ turns v, V v ∧ (∀ turn < turns, E ((Status.step jobid)^[turn] s)) ∧
    ((Status.step jobid)^[turns] s).point = .returned v

/-- What is asked for is asked for only where a line is logged. -/
def Quiet (E : Status → Prop) : Prop := ∀ s : Status, ¬s.Garbled → E s

theorem settles_step (quiet : Quiet E) :
    Settles jobid E V s ↔ E s ∧ Settles jobid E V (s.step jobid) := by
  constructor
  · rintro ⟨turns, v, fits, meets, returned⟩
    cases turns with
    -- a state that has returned stays as it is
    | zero =>
      have returned : s.point = .returned v := returned
      have stays : s = s.step jobid := step_of_returned returned
      refine ⟨quiet s fun garbled => by simp [garbled.1] at returned, ?_⟩
      rw [← stays]
      exact ⟨0, v, fits, nofun, returned⟩
    | succ turns =>
      exact ⟨meets 0 (Nat.succ_pos turns), turns, v, fits,
        fun turn before => meets (turn + 1) (by omega), returned⟩
  · rintro ⟨here, turns, v, fits, meets, returned⟩
    refine ⟨turns + 1, v, fits, fun turn before => ?_, returned⟩
    cases turn with
    | zero => exact here
    | succ turn => exact meets turn (by omega)

theorem settles_returned (point : s.point = .returned v) : Settles jobid E V s ↔ V v := by
  constructor
  · rintro ⟨turns, v', fits, -, returned⟩
    rw [Function.iterate_fixed (step_of_returned point).symm, point] at returned
    cases returned
    exact fits
  · intro fits
    exact ⟨0, v, fits, nofun, point⟩

/-- A state that is its own successor returns nothing later. -/
theorem not_settles (fixed : s.step jobid = s) (running : ∀ v, s.point ≠ .returned v) :
    ¬Settles jobid E V s := by
  rintro ⟨turns, v, -, -, returned⟩
  rw [Function.iterate_fixed fixed] at returned
  exact running v returned

theorem not_settles_undefined (point : s.point = .undefined) : ¬Settles jobid E V s :=
  not_settles (step_of_undefined point).symm (by simp [point])

/-- To return, the parser has to stay in the buffer. -/
theorem settles_watch (jobid : Int) (quiet : Quiet E) (V : Nat → Prop) (bufsz datsz : Nat) :
    Watch jobid bufsz bufsz datsz E (Settles jobid E V) where
  inside := Nat.le_refl _
  quiet s ungarbled _ := quiet s ungarbled
  scans s size data scans := by
    rw [settles_step quiet]
    by_cases inside : s.cp < bufsz
    · simp [inside]
    -- outside the buffer the turn is undefined
    · have beyond : ¬s.cp < s.bufsz := by omega
      have leaves : (s.step jobid).point = .undefined := by
        cases point : s.point <;> simp [point, scanning] at scans <;> simp [Status.step, point,
          peek, beyond]
      simp [inside, not_settles_undefined leaves]
  seeks s k size data := by
    have here : E (s.seeking k) := quiet _ fun garbled => by simp [Garbled, seeking] at garbled
    rw [settles_step quiet]
    by_cases inside : k < bufsz
    · simp [inside, here]
    · have leaves : ((s.seeking k).step jobid).point = .undefined := by
        simp [seeking, Status.step, peek, size, inside]
      simp [inside, not_settles_undefined leaves]
  compares s size data point := by
    have here : E s := quiet _ fun garbled => by simp [Garbled, point] at garbled
    rw [settles_step quiet]
    cases compared : lengthAt s.mem bufsz s.cp with
    | none =>
      have same : strncasecmp s.mem s.bufsz s.cp contentLength = none := by
        rw [size]; exact compared
      have leaves : (s.step jobid).point = .undefined := by simp [Status.step, point, same]
      simp [not_settles_undefined leaves]
    | some answer => simp [here]
  ends s k size data left := by
    have here : E (s.ending k) := quiet _ fun garbled => by simp [Garbled, ending] at garbled
    rw [settles_step quiet]
    cases compared : endAt s.mem bufsz k with
    | none =>
      have same : standsAt id s.mem s.bufsz k [10, 13, 10] = none := by rw [size]; exact compared
      have leaves : ((s.ending k).step jobid).point = .undefined := by
        simp [Status.step, ending, same, data, left]
      simp [not_settles_undefined leaves]
    | some answer => simp [here]

theorem settles_readmore {next : Point} :
    Settles jobid E V (s.readmore next) ↔
      match s.data.refill s.i with
      | none => V 0
      | some data => Settles jobid E V (s.resume data next) := by
  rw [readmore_eq]
  cases s.data.refill s.i with
  | none => exact settles_returned rfl
  | some data => rfl

end Settles

end Status

end Apue.Printer
