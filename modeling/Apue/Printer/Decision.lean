import Apue.Printer.Parsing

/-! # A response that arrives whole

What `printer_status` makes of a response that is all there after the first read, in any order of
the header lines and any spelling of `Content-Length:`.  The NULs that the parser writes stand in
front of what it looks for next.
-/

namespace Apue.Printer

open Apue.Base

/-! ## The text -/

/-- The text begins with `Content-Length:`, in upper or lower case. -/
def Named (text : Bytes) : Prop := (text.take 15).map toLower = Status.contentLength.map toLower

instance (text : Bytes) : Decidable (Named text) := inferInstanceAs (Decidable (_ = _))

/-- A status line, header lines, the first of which with the name of the field in it is the field,
and a body of the length that the field tells. -/
structure WholeResponse where
  version : Bytes
  code : Bytes
  reason : Bytes
  before : List Bytes
  name : Bytes
  blanks : Bytes
  digits : Bytes
  trailing : Bytes
  after : List Bytes
  body : Bytes
  version_length : version.length = 8
  code_length : code.length = 3
  code_digits : ∀ b ∈ code, isDigit b = true
  reason_inLine : ∀ b ∈ reason, inLine b = true
  lines_inLine : ∀ line ∈ before ++ after, line ≠ [] ∧ ∀ b ∈ line, inLine b = true
  name_length : name.length = 15
  named : Named name
  first : ∀ k, k < (headerLines before).length → ¬Named ((headerLines before ++ name).drop k)
  blanks_space : ∀ b ∈ blanks ++ trailing, isSpace b = true ∧ inLine b = true
  digits_nonempty : digits ≠ []
  digits_digits : ∀ b ∈ digits, isDigit b = true
  digits_value : digitsValue digits = body.length
  body_length : 8 ≤ body.length

namespace WholeResponse

def statusLine (r : WholeResponse) : Bytes := r.version ++ 32 :: (r.code ++ 32 :: r.reason)

def field (r : WholeResponse) : Bytes := r.name ++ r.blanks ++ r.digits ++ r.trailing

def text (r : WholeResponse) : Bytes :=
  headerLines ([r.statusLine] ++ r.before ++ [r.field] ++ r.after) ++ crlf ++ r.body

/-- The HTTP status code. -/
def status (r : WholeResponse) : Nat := digitsValue r.code

/-- The request id of the IPP header. -/
def requestId (r : WholeResponse) : Int := cInt (ntohl (r.body.drop 4))

/-- The status of the IPP header. -/
def ippStatus (r : WholeResponse) : Nat := (r.body.getD 2 0).toNat * 256 + (r.body.getD 3 0).toNat

end WholeResponse

/-! ## Numbers -/

/-- A text of digits is read whole. -/
theorem atoi_digits {digits : Bytes} (nonempty : digits ≠ []) (all : ∀ b ∈ digits, isDigit b = true)
    (small : digitsValue digits < 2 ^ 31) : atoi digits = digitsValue digits := by
  obtain ⟨d, ds, rfl⟩ := List.exists_cons_of_ne_nil nonempty
  have digit := all d List.mem_cons_self
  have bounds : 48 ≤ d.toNat ∧ d.toNat ≤ 57 := by
    simpa [isDigit, UInt8.le_iff_toNat_le] using digit
  have noSpace : isSpace d = false := isSpace_of_isDigit digit
  have noSign : d ≠ 45 ∧ d ≠ 43 := by
    constructor <;> (rintro rfl; simp at bounds)
  have taken : (d :: ds).takeWhile isDigit = d :: ds := List.takeWhile_eq_self_iff.mpr all
  have unsaturated : min (digitsValue (d :: ds)) (2 ^ 63 - 1) = digitsValue (d :: ds) := by omega
  rw [atoi, atol, List.dropWhile_cons_of_neg (by simp [noSpace])]
  simp only [List.head?_cons, Option.some.injEq, noSign.1, noSign.2, if_false, taken, unsaturated]
  exact cInt_of_small small

/-! ## Searches in a text -/

section Texts

variable {fold : UInt8 → UInt8} {mem : Nat → UInt8} {limit start k : Nat} {text : Bytes}

/-- A comparison inside a text that stands in the buffer. -/
theorem standsAt_holds {sought : Bytes} (holds : Holds mem k text)
    (long : sought.length ≤ text.length)
    (room : k + sought.length ≤ limit) :
    standsAt fold mem limit k sought =
      some (decide ((text.take sought.length).map fold = sought.map fold)) := by
  -- on the text that is sought, byte by byte
  induction sought generalizing k text with
  | nil => simp [standsAt]
  | cons b sought inductionHypothesis =>
    cases text with
    | nil => simp at long
    | cons a text =>
      simp only [List.length_cons] at long room
      rw [standsAt, if_pos (by omega), holds.1, inductionHypothesis holds.2 (by omega) (by omega)]
      by_cases same : fold a = fold b
      · simp [same]
      · simp [same]

theorem endAt_of_ne (inside : k < limit) (other : mem k ≠ 10) : endAt mem limit k = some false := by
  simp [endAt, standsAt, inside, other]

theorem endAt_of_full (inside : k + 1 < limit) (other : mem (k + 1) ≠ 13) :
    endAt mem limit k = some false := by
  have first : k < limit := by omega
  by_cases lf : mem k = 10
  · simp [endAt, standsAt, inside, first, lf, other]
  · exact endAt_of_ne first lf

theorem missed_line {line : Bytes} (holds : Holds mem start line) (noLf : 10 ∉ line)
    (inside : start + line.length ≤ limit) :
    Missed (endAt mem limit) start (start + line.length) := by
  intro k lower upper
  obtain ⟨j, rfl⟩ := Nat.exists_eq_add_of_le lower
  have short : j < line.length := by omega
  apply endAt_of_ne (by omega)
  rw [holds.apply short]
  exact fun same => noLf (same ▸ List.getElem_mem short)

theorem missed_succ {found : Nat → Option Bool} (misses : found start = some false) :
    Missed found start (start + 1) := by
  intro k lower upper
  obtain rfl : k = start := by omega
  exact misses

/-- Behind a line there is the next one or the empty line, which is the first place where the search
succeeds. -/
theorem endAt_lines {rest : Bytes} (after : List Bytes)
    (full : ∀ line ∈ after, line ≠ [] ∧ ∀ b ∈ line, inLine b = true)
    (line : Bytes) (start : Nat) (noLf : 10 ∉ line)
    (holds : Holds mem start (line ++ 10 :: (headerLines after ++ 13 :: 10 :: rest)))
    (inside : start + line.length + (headerLines after).length + 2 < limit) :
    Missed (endAt mem limit) start (start + line.length + (headerLines after).length) ∧
      endAt mem limit (start + line.length + (headerLines after).length) = some true := by
  -- on the lines that are left: the search passes over one of them at a time
  induction after generalizing line start with
  | nil =>
    simp only [headerLines, List.flatMap_nil, List.length_nil, Nat.add_zero,
      List.nil_append] at holds inside ⊢
    obtain ⟨first, lf, cr, lf', -⟩ := holds_append.mp holds
    refine ⟨missed_line first noLf (by omega), ?_⟩
    have room : start + line.length + 1 < limit := by omega
    have room' : start + line.length < limit := by omega
    simp [endAt, standsAt, room, room', inside, lf, cr, lf']
  | cons next after inductionHypothesis =>
    obtain ⟨nonempty, solid⟩ := full next List.mem_cons_self
    obtain ⟨b, others, rfl⟩ := List.exists_cons_of_ne_nil nonempty
    have solid' : ∀ c ∈ b :: others, c ≠ 13 ∧ c ≠ 10 := by
      intro c member
      have passes := solid c member
      simpa [inLine] using passes
    -- the next line with its carriage return
    have noLf' : 10 ∉ b :: others ++ [13] := by
      intro member
      obtain inNext | inEnd := List.mem_append.mp member
      · exact (solid' 10 inNext).2 rfl
      · simp at inEnd
    have lengths : (headerLines ((b :: others) :: after)).length = (b :: others ++ [13]).length +
        1 + (headerLines after).length := by
      simp [headerLines, crlf]
      omega
    have shape : line ++ 10 :: (headerLines ((b :: others) :: after) ++ 13 :: 10 :: rest) =
        line ++ 10 :: (b :: others ++ [13] ++ 10 :: (headerLines after ++ 13 :: 10 :: rest)) := by
      simp [headerLines, crlf]
    rw [shape] at holds
    rw [lengths] at inside ⊢
    obtain ⟨first, lf, behind⟩ := holds_append.mp holds
    obtain ⟨missed, found⟩ :=
      inductionHypothesis (fun line member => full line (List.mem_cons_of_mem _ member))
      (b :: others ++ [13]) (start + line.length + 1) noLf' behind (by omega)
    have places : start + line.length + 1 + (b :: others ++ [13]).length +
        (headerLines after).length =
        start + line.length + ((b :: others ++ [13]).length + 1 + (headerLines after).length) := by
          omega
    rw [places] at missed found
    refine ⟨?_, found⟩
    -- a line feed, but no carriage return behind it, since the next line is not empty
    have here : endAt mem limit (start + line.length) = some false := by
      apply endAt_of_full (by omega)
      rw [behind.1]
      exact (solid' b List.mem_cons_self).1
    exact missed_append (missed_line first noLf (by omega))
      (missed_append (missed_succ here) missed)

theorem slice_holds (holds : Holds mem start text) :
    slice mem start (start + text.length) = text := by
  apply List.ext_getElem
  · simp [slice]
  · intro k _ inside
    simp only [slice, List.getElem_map, List.getElem_range]
    exact holds.apply inside

end Texts

namespace WholeResponse

/-! ## Where things stand -/

section Layout

variable {r : WholeResponse} {mem : Nat → UInt8} {limit : Nat}

def eol (r : WholeResponse) : Nat := 13 + r.reason.length

/-- Where the field starts, its digits and what is behind them. -/
def fieldAt (r : WholeResponse) : Nat := r.eol + 2 + (headerLines r.before).length

def digitsAt (r : WholeResponse) : Nat := r.fieldAt + 15 + r.blanks.length

def digitsEnd (r : WholeResponse) : Nat := r.digitsAt + r.digits.length

/-- The line feed in front of the empty line. -/
def endingAt (r : WholeResponse) : Nat :=
  r.digitsEnd + 1 + r.trailing.length + (headerLines r.after).length

/-- What is behind the digits. -/
def tailText (r : WholeResponse) : Bytes :=
  r.trailing ++ 13 :: 10 :: (headerLines r.after ++ 13 :: 10 :: r.body)

/-- What is behind the status line. -/
def headText (r : WholeResponse) : Bytes :=
  headerLines r.before ++ (r.name ++ (r.blanks ++ (r.digits ++ r.tailText)))

theorem text_eq (r : WholeResponse) :
    r.text = r.version ++ 32 :: (r.code ++ 32 :: (r.reason ++ 13 :: 10 :: r.headText)) := by
  simp [text, headerLines, statusLine, field, crlf, headText, tailText]

theorem text_length (r : WholeResponse) : r.text.length = r.endingAt + 3 + r.body.length := by
  rw [text_eq]
  simp only [headText, tailText, endingAt, digitsEnd, digitsAt, fieldAt, eol, List.length_append,
    List.length_cons,
    r.version_length, r.code_length, r.name_length]
  omega

theorem statusLine_holds (holds : Holds mem 0 r.text) (inside : r.text.length < limit) :
    StatusLine mem limit 9 12 r.eol ∧ slice mem 9 12 = r.code ∧ mem r.eol = 13 ∧
      mem (r.eol + 1) = 10 ∧
      Holds mem (r.eol + 2) r.headText := by
  rw [text_length] at inside
  rw [text_eq, holds_append, r.version_length] at holds
  obtain ⟨-, blank, behind⟩ := holds
  rw [holds_append, r.code_length] at behind
  obtain ⟨code, blank', behind⟩ := behind
  rw [holds_append] at behind
  obtain ⟨reason, cr, lf, behind⟩ := behind
  have ahead : r.eol + 2 ≤ r.endingAt := by
    simp only [endingAt, digitsEnd, digitsAt, fieldAt]
    omega
  have width : r.eol = 13 + r.reason.length := rfl
  have first : isDigit (mem 9) = true := by
    have nonempty : 0 < r.code.length := by rw [r.code_length]; decide
    rw [show mem 9 = r.code[0] from code.apply nonempty]
    exact r.code_digits _ (List.getElem_mem _)
  -- the blank, the three digits, and the reason up to the carriage return
  refine ⟨⟨?_, ?_, by decide, ?_⟩, ?_, cr, lf, behind⟩
  · have single : Holds mem 8 [32] := ⟨blank, trivial⟩
    exact span_of_holds single (List.all_eq_true.mp rfl) (isSpace_of_isDigit first) (by simp; omega)
  · have span : isDigit (mem (9 + r.code.length)) = false → 9 + r.code.length < limit →
        Span isDigit mem limit 9 (9 + r.code.length) := span_of_holds code r.code_digits
    rw [r.code_length] at span
    exact span (by rw [blank']; decide) (by omega)
  · exact span_of_holds reason r.reason_inLine (by rw [cr]; decide) (by omega)
  · have sliced := slice_holds code
    rw [r.code_length] at sliced
    exact sliced

/-- The field is the first place behind the status line where its name stands. -/
theorem field_first (nul : mem r.eol = 0) (lf : mem (r.eol + 1) = 10)
    (holds : Holds mem (r.eol + 2) r.headText)
    (inside : r.text.length ≤ limit) :
    First (lengthAt mem limit) r.eol r.text.length r.fieldAt := by
  rw [text_length] at inside ⊢
  have width : r.fieldAt = r.eol + 2 + (headerLines r.before).length := rfl
  have ahead : r.fieldAt + 15 < r.endingAt := by
    simp only [endingAt, digitsEnd, digitsAt]
    omega
  -- the fifteen bytes that are compared lie in the lines and the name
  have compared : ∀ k, k ≤ (headerLines r.before).length →
      (lengthAt mem limit (r.eol + 2 + k) =
        some (decide (Named ((headerLines r.before ++ r.name).drop k)))) := by
    intro k le
    have short : k ≤ r.headText.length := by
      simp only [headText, List.length_append]
      omega
    have taken : (r.headText.drop k).take 15 =
        ((headerLines r.before ++ r.name).drop k).take 15 := by
      rw [headText, ← List.append_assoc,
        List.drop_append_of_le_length (by rw [List.length_append]; omega),
        List.take_append_of_le_length]
      rw [List.length_drop, List.length_append, r.name_length]
      omega
    have long : Status.contentLength.length ≤ (r.headText.drop k).length := by
      rw [List.length_drop, headText, List.length_append, List.length_append, r.name_length]
      rw [show Status.contentLength.length = 15 by decide]
      omega
    have stands : lengthAt mem limit (r.eol + 2 + k) = _ :=
      standsAt_holds (holds.drop short) long
        (by rw [show Status.contentLength.length = 15 by decide]; omega)
    rw [show Status.contentLength.length = 15 by decide, taken] at stands
    exact stands
  constructor
  · omega
  · omega
  · rw [width, compared _ (Nat.le_refl _), List.drop_left, decide_eq_true r.named]
  · -- a NUL, a line feed, and then the lines
    have atEnd : lengthAt mem limit r.eol = some false :=
      strncasecmp_of_ne (by omega) (by simp [nul]) (by simp [nul])
    have atNext : lengthAt mem limit (r.eol + 1) = some false :=
      strncasecmp_of_ne (by omega) (by simp [lf]) (by simp [lf])
    apply missed_append (missed_succ atEnd)
    apply missed_append (missed_succ atNext)
    intro k lower upper
    obtain ⟨j, rfl⟩ := Nat.exists_eq_add_of_le lower
    rw [show r.eol + 1 + 1 + j = r.eol + 2 +
      j by omega, compared j (by omega), decide_eq_false (r.first j (by omega))]

theorem field_number (holds : Holds mem (r.eol + 2) r.headText) (inside : r.text.length ≤ limit) :
    Number mem limit (r.fieldAt + 15) r.digitsAt r.digitsEnd ∧
      slice mem r.digitsAt r.digitsEnd = r.digits ∧
      Holds mem r.digitsEnd r.tailText := by
  rw [text_length] at inside
  have ahead : r.digitsEnd < r.endingAt := by
    simp only [endingAt]
    omega
  rw [headText, holds_append, holds_append, r.name_length, holds_append, holds_append] at holds
  obtain ⟨-, -, blanks, digits, tail⟩ := holds
  have first : isSpace (mem r.digitsAt) = false := by
    have nonempty := List.length_pos_iff.mpr r.digits_nonempty
    rw [show mem r.digitsAt = r.digits[0] from digits.apply nonempty]
    exact isSpace_of_isDigit (r.digits_digits _ (List.getElem_mem _))
  -- behind the digits is a blank or the end of the line
  have last : isDigit (mem r.digitsEnd) = false := by
    cases trailing : r.trailing with
    | nil =>
      rw [tailText, trailing] at tail
      rw [show mem r.digitsEnd = 13 from tail.1]
      decide
    | cons b others =>
      rw [tailText, trailing] at tail
      rw [show mem r.digitsEnd = b from tail.1]
      have space := (r.blanks_space b (by simp [trailing])).1
      cases digit : isDigit b with
      | false => rfl
      | true =>
        rw [isSpace_of_isDigit digit] at space
        cases space
  have width : r.digitsEnd = r.digitsAt + r.digits.length := rfl
  have start : r.digitsAt < r.digitsEnd := by
    have nonempty := List.length_pos_iff.mpr r.digits_nonempty
    omega
  refine ⟨⟨?_, ?_⟩, slice_holds digits, tail⟩
  · exact span_of_holds blanks
      (fun b member => (r.blanks_space b (List.mem_append_left _ member)).1) first
      (Nat.lt_trans start (by omega))
  · exact span_of_holds digits r.digits_digits last (by omega)

/-- The end of the header, for a text that goes on behind the NUL in place of what ended the
number. -/
theorem end_first (holds : Holds mem r.digitsEnd r.tailText) (inside : r.text.length ≤ limit) :
    First (endAt (cut mem r.digitsEnd) limit) (r.digitsEnd + 1) (r.text.length - 2) r.endingAt ∧
      Holds (cut mem r.digitsEnd) (r.endingAt + 3) r.body := by
  rw [text_length] at inside ⊢
  -- the byte that the NUL replaces is not part of the search, whether a blank or the carriage return
  have shape : ∃ b line,
      r.tailText = b :: (line ++ 10 :: (headerLines r.after ++ 13 :: 10 :: r.body)) ∧
      line.length = r.trailing.length ∧ 10 ∉ line := by
    cases trailing : r.trailing with
    | nil => exact ⟨13, [], by simp [tailText, trailing], rfl, by simp⟩
    | cons b others =>
      refine ⟨b, others ++ [13], by simp [tailText, trailing], by simp, fun member => ?_⟩
      obtain inOthers | inEnd := List.mem_append.mp member
      · have solid := (r.blanks_space 10 (by simp [trailing, inOthers])).2
        simp [inLine] at solid
      · simp at inEnd
  obtain ⟨b, line, tail, length, noLf⟩ := shape
  have width : r.endingAt = r.digitsEnd + 1 + line.length + (headerLines r.after).length := by
    rw [length]; rfl
  rw [tail] at holds
  have behind : Holds (cut mem r.digitsEnd)
      (r.digitsEnd + 1) (line ++ 10 :: (headerLines r.after ++ 13 :: 10 :: r.body)) := by
    apply holds.2.congr
    intro k lower
    rw [cut_apply, if_neg (by omega)]
  have full := fun line member => r.lines_inLine line (List.mem_append_right _ member)
  have searched : Missed (endAt (cut mem r.digitsEnd) limit) _ _ ∧
      endAt (cut mem r.digitsEnd) limit _ = some true :=
    endAt_lines r.after full line (r.digitsEnd + 1) noLf behind (by omega)
  rw [← width] at searched
  obtain ⟨missed, found⟩ := searched
  rw [holds_append, Holds, holds_append] at behind
  obtain ⟨-, -, -, -, -, body⟩ := behind
  have place : r.digitsEnd + 1 + line.length + 1 + (headerLines r.after).length + 1 + 1 =
    r.endingAt + 3 := by omega
  rw [place] at body
  have long := r.body_length
  exact ⟨⟨by omega, by omega, found, missed⟩, body⟩

end Layout

/-! ## The run -/

section Run

open Status

variable {jobid : Int} {V : Nat → Prop} {r : WholeResponse} {s : Status}

/-- What is decided in the IPP header. -/
theorem settles_header (size : s.bufsz = iobufsz) (point : s.point = .header)
    (room : s.cp + 8 ≤ iobufsz)
    (holds : Holds s.mem s.cp r.body) :
    Settles jobid (fun _ => True) V s ↔
      V (if r.requestId = jobid ∧ r.ippStatus ≤ 255 then 1 else 0) := by
  have long := r.body_length
  have byte : ∀ k, k < 8 → s.mem (s.cp + k) = r.body.getD k 0 := by
    intro k small
    have inside : k < r.body.length := by omega
    rw [holds.apply inside, List.getD_eq_getElem?_getD, List.getElem?_eq_getElem inside,
      Option.getD_some]
  -- the request id is read as four bytes in network order
  have number : cInt (ntohl (slice s.mem (s.cp + 4) (s.cp + 8))) = r.requestId := by
    have split : r.body.drop 4 = (r.body.drop 4).take 4 ++ (r.body.drop 4).drop 4 :=
      (List.take_append_drop 4 _).symm
    have behind := holds.drop (k := 4) (by omega)
    rw [split, holds_append] at behind
    have length : ((r.body.drop 4).take 4).length = 4 := by
      rw [List.length_take, List.length_drop]
      omega
    have sliced := slice_holds behind.1
    rw [length] at sliced
    rw [show s.cp + 8 = s.cp + 4 +
      4 by omega, sliced, requestId, ntohl, ntohl, List.take_take, Nat.min_self]
  have inside : s.cp + 8 ≤ s.bufsz := by omega
  have status : (s.mem (s.cp + 2)).toNat * 256 + (s.mem (s.cp + 3)).toNat = r.ippStatus := by
    rw [byte 2 (by decide), byte 3 (by decide), ippStatus]
  have turn : (s.step jobid).point = .returned (if r.requestId = jobid ∧
      r.ippStatus ≤ 255 then 1 else 0) := by
    simp only [Status.step, point, inside, if_true, number, status]
    split <;> rfl
  rw [settles_step (fun _ _ => trivial), true_and, settles_returned turn]

/-- The body is all there. -/
theorem settles_foundEnd (size : s.bufsz = iobufsz) (point : s.point = .foundEnd)
    (place : s.cp = s.i)
    (data : s.datsz = s.i + r.body.length) (len : s.len = r.body.length) (room : s.i + 8 ≤ iobufsz)
    (holds : Holds s.mem s.i r.body) :
    Settles jobid (fun _ => True) V s ↔
      V (if r.requestId = jobid ∧ r.ippStatus ≤ 255 then 1 else 0) := by
  have long := r.body_length
  have toBody : s.step jobid = { s with point := .body } := by
    have more : ¬s.datsz ≤ s.i := by omega
    simp [Status.step, point, more]
  have toHeader : ({ s with point := .body } : Status).step jobid =
      { s with point := .header } := by
    have enough : ¬(s.datsz - s.i : Int) < s.len := by
      rw [data, len]
      omega
    simp [Status.step, enough]
  rw [settles_step (fun _ _ => trivial), true_and, toBody, settles_step (fun _ _ => trivial),
    true_and, toHeader]
  apply settles_header (s := { s with point := .header }) size rfl
  · simp only [place]
    exact room
  · simp only [place]
    exact holds

/-- From the search for the field on. -/
theorem settles_seeking (size : s.bufsz = iobufsz) (data : s.datsz = r.text.length)
    (fits : r.text.length < iobufsz)
    (nul : s.mem r.eol = 0) (lf : s.mem (r.eol + 1) = 10)
    (holds : Holds s.mem (r.eol + 2) r.headText) :
    Settles jobid (fun _ => True) V (s.seeking r.eol) ↔
      V (if r.requestId = jobid ∧ r.ippStatus ≤ 255 then 1 else 0) := by
  have watch := settles_watch jobid (fun _ _ => trivial) V iobufsz r.text.length
  have length := r.text_length
  have long := r.body_length
  have le : r.text.length ≤ iobufsz := Nat.le_of_lt fits
  obtain ⟨number, digits, tail⟩ := field_number holds le
  obtain ⟨first, body⟩ := end_first tail le
  have small : r.body.length < 2 ^ 31 := by
    have : iobufsz = 8192 := rfl
    omega
  have len : atoi (slice s.mem r.digitsAt r.digitsEnd) = r.body.length := by
    rw [digits, atoi_digits r.digits_nonempty r.digits_digits (by rw [r.digits_value]; exact small),
      r.digits_value]
  have before : r.digitsEnd + 1 ≤ r.endingAt := by
    simp only [endingAt]
    omega
  rw [watch.seek size data, (field_first nul lf holds le).search_iff,
    watch.number (s := { s with point := .lengthSpace, cp := r.fieldAt + 15, i := r.fieldAt })
      size data rfl,
    number.exists_iff]
  -- the number is followed by more, the end of the header by the body, and the body is all there
  have afterLength :
      (measured { s with point := .lengthSpace, cp := r.fieldAt + 15, i := r.fieldAt } r.digitsAt
      r.digitsEnd).step jobid = (measured s r.digitsAt r.digitsEnd).ending (r.digitsEnd + 1) := by
    have more : ¬r.text.length ≤ r.digitsEnd + 1 := by omega
    simp [Status.step, measured, ending, data, more]
  rw [settles_step (fun _ _ => trivial), true_and, afterLength,
    watch.seekEnd (s := measured s r.digitsAt r.digitsEnd) size data]
  have ended : First (endAt (measured s r.digitsAt r.digitsEnd).mem iobufsz)
      (r.digitsEnd + 1) (r.text.length - 2)
      r.endingAt := first
  rw [ended.search_iff]
  have whole : s.datsz = r.endingAt + 3 + r.body.length := by omega
  exact settles_foundEnd (s := { measured s r.digitsAt r.digitsEnd with
    point := .foundEnd, cp := r.endingAt + 3, i := r.endingAt + 3 }) size rfl rfl whole len
      (by simp only; omega) body

theorem status_eq (r : WholeResponse) : atoi r.code = r.status := by
  apply atoi_digits _ r.code_digits
  -- three digits are less than 1000
  · obtain ⟨a, b, c, code⟩ := List.length_eq_three.mp r.code_length
    have digit : ∀ d ∈ [a, b, c], d.toNat ≤ 57 := by
      intro d member
      have passes := r.code_digits d (code ▸ member)
      simp only [isDigit, Bool.and_eq_true, decide_eq_true_eq, UInt8.le_iff_toNat_le] at passes
      exact passes.2
    have := digit a (by simp)
    have := digit b (by simp)
    have := digit c (by simp)
    rw [code]
    simp only [digitsValue, List.foldl_cons, List.foldl_nil]
    omega
  · apply List.length_pos_iff.mp
    rw [r.code_length]
    decide

theorem settles_whole (heap : Nat → UInt8) (ending : Option Errno)
    (fits : r.text.length < iobufsz) :
    Settles jobid (fun _ => True) V (.initial heap ⟨[r.text], ending⟩) ↔
      V (if httpSuccess r.status = true ∧ r.requestId = jobid ∧
        r.ippStatus ≤ 255 then 1 else 0) := by
  let t : Status := ⟨.statusSpace, store heap 0 r.text, iobufsz, r.text.length, 8, 0, 0, 0, 0,
    ⟨[], ending⟩⟩
  have reads : (Status.initial heap ⟨[r.text], ending⟩).step jobid = t := by
    have nonempty : r.text ≠ [] := by
      apply List.length_pos_iff.mp
      rw [r.text_length]
      omega
    have whole : r.text.take iobufsz = r.text ∧ r.text.drop iobufsz = [] :=
      ⟨List.take_of_length_le (Nat.le_of_lt fits), List.drop_of_length_le (Nat.le_of_lt fits)⟩
    simp [Status.initial, Status.step, Response.tread, whole, nonempty, t]
  obtain ⟨line, code, cr, lf, behind⟩ := statusLine_holds (holds_store heap r.text) fits
  have value : atoi (slice t.mem 9 12) = r.status := by
    rw [← status_eq, ← code]
  rw [settles_step (fun _ _ => trivial), true_and, reads,
    (settles_watch jobid (fun _ _ => trivial) V iobufsz r.text.length).statusLine_of
    (s := t) rfl rfl rfl rfl line, true_and,
    lined_step (s := t) line (Nat.le_refl _)]
  cases success : httpSuccess r.status with
  | true =>
    rw [judged_of_success (by rw [value]; exact success)]
    -- the two NULs are in the status line and leave what follows as it was
    have same : ∀ k, r.eol + 1 ≤ k → t.mem k = cut (cut t.mem 12) r.eol k := by
      intro k lower
      have wide : 12 < r.eol := line.reason.le
      rw [cut_apply, cut_apply, if_neg (by omega), if_neg (by omega)]
    rw [settles_seeking (s := { t with mem := cut (cut t.mem 12) r.eol, start := 9, stop := 12, cp := r.eol }) rfl rfl fits
      (by simp [cut_apply]) ((same _ (Nat.le_refl _)).symm.trans lf)
        (behind.congr fun k lower => same k (by omega))]
    simp
  | false =>
    simp only [Bool.false_eq_true, false_and, if_false]
    cases info : httpInfo r.status with
    -- a 1xx code makes it read again, and there is no more
    | true =>
      rw [judged_of_info (by rw [value]; exact info), settles_step (fun _ _ => trivial), true_and]
      apply settles_returned
      simp [Status.step, Response.tread, t]
    | false =>
      apply settles_returned
      rw [judged_of_error (by rw [value]; exact info) (by rw [value]; exact success),
        if_pos (show t.datsz < t.bufsz from fits)]

end Run

end WholeResponse

/-- A response that arrives whole is taken for a success exactly when both status codes say so and
the job is the right one. -/
theorem status_decides_whole (jobid : Int) (heap : Nat → UInt8) (ending : Option Errno)
    (r : WholeResponse)
    (fits : r.text.length < iobufsz) :
    (Returns jobid heap ⟨[r.text], ending⟩ 1 ↔
      (200 ≤ r.status ∧ r.status ≤ 299) ∧ r.requestId = jobid ∧ r.ippStatus ≤ 255) ∧
    (Returns jobid heap ⟨[r.text], ending⟩ 0 ↔
      ¬((200 ≤ r.status ∧ r.status ≤ 299) ∧ r.requestId = jobid ∧ r.ippStatus ≤ 255)) := by
  have code : Status.httpSuccess r.status = true ↔ 200 ≤ r.status ∧ r.status ≤ 299 := by
    simp only [Status.httpSuccess, Bool.and_eq_true, decide_eq_true_eq]
    omega
  have returns : ∀ v, Returns jobid heap ⟨[r.text], ending⟩ v ↔
      (if Status.httpSuccess r.status = true ∧ r.requestId = jobid ∧
        r.ippStatus ≤ 255 then 1 else 0) = v := by
    intro v
    rw [← @WholeResponse.settles_whole jobid (· = v) r heap ending fits]
    constructor
    · rintro ⟨turns, returned⟩
      exact ⟨turns, v, rfl, fun _ _ => trivial, returned⟩
    · rintro ⟨turns, v, rfl, -, returned⟩
      exact ⟨turns, returned⟩
  rw [returns, returns, ← code]
  by_cases decides : Status.httpSuccess r.status = true ∧ r.requestId = jobid ∧ r.ippStatus ≤ 255
  · simp [decides]
  · rw [if_neg decides]
    simp [decides]

/-- With the field in lower case between two others. -/
def jobDone : WholeResponse where
  version := ascii "HTTP/1.1"
  code := ascii "200"
  reason := ascii "OK"
  before := [ascii "Content-Type: application/ipp"]
  name := ascii "content-length:"
  blanks := [32]
  digits := ascii "8"
  trailing := []
  after := [ascii "Connection: close"]
  body := [1, 1, 0, 0, 0, 0, 0, 5]
  version_length := rfl
  code_length := rfl
  code_digits := List.all_eq_true.mp rfl
  reason_inLine := List.all_eq_true.mp rfl
  lines_inLine := by
    intro line member
    obtain rfl | rfl : line = ascii "Content-Type: application/ipp" ∨ line = ascii "Connection: close" := by simpa using member
    · exact ⟨by decide, List.all_eq_true.mp rfl⟩
    · exact ⟨by decide, List.all_eq_true.mp rfl⟩
  name_length := rfl
  named := by decide
  first := by decide
  blanks_space := by
    intro b member
    obtain rfl : b = 32 := by simpa using member
    decide
  digits_nonempty := by decide
  digits_digits := List.all_eq_true.mp rfl
  digits_value := by decide
  body_length := by decide

theorem status_decides_jobDone : Returns 5 (fun _ => 0) ⟨[jobDone.text], none⟩ 1 :=
  (status_decides_whole 5 (fun _ => 0) none jobDone (by decide)).1.mpr (by decide)

end Apue.Printer
