import Apue.Printer.Network

/-! # The printer's response

`printer_status` parses the response as it arrives, in a buffer that `malloc` left with whatever
contents.  Its loops are the points of a machine: a step is one turn of a loop or the code between
two loops, a byte outside the buffer makes the outcome undefined, and a loop that does not end never
gets to `returned`.

The machine does not log.  A line without a number is given to `log_msg` as the format, so what the
printer has sent decides whether that call is defined: `Logs` says so of the turn in which it is
made.
-/

namespace Apue.Printer

open Apue.Base

/-! ## The connection -/

/-- The pieces in which the response arrives, none of them empty, and how the connection ends. -/
structure Response where
  pieces : List Bytes
  ending : Option Errno
  deriving DecidableEq, Repr

/-- `tread` where a positive result is the only one that counts; what does not fit stays for the
next read. -/
def Response.tread (response : Response) (nbytes : Nat) : Option (Bytes × Response) :=
  match response.pieces with
  | [] => none
  | piece :: pieces =>
    if piece.take nbytes = [] then none
    else
      let rest := piece.drop nbytes
      some (piece.take nbytes,
        { response with pieces := if rest = [] then pieces else rest :: pieces })

/-! ## The buffer -/

/-- The bytes from `off` on are those of the piece. -/
def store (mem : Nat → UInt8) (off : Nat) (bytes : Bytes) (k : Nat) : UInt8 :=
  if off ≤ k then bytes.getD (k - off) (mem k) else mem k

def slice (mem : Nat → UInt8) (start stop : Nat) : Bytes :=
  (List.range (stop - start)).map fun k => mem (start + k)

def toLower (b : UInt8) : UInt8 := if 65 ≤ b ∧ b ≤ 90 then b + 32 else b

/-- Whether the text stands at `k`, up to `fold`; `none` when the buffer ends before a
difference. -/
def standsAt (fold : UInt8 → UInt8) (mem : Nat → UInt8) (bufsz : Nat) : Nat → Bytes → Option Bool
  | _, [] => some true
  | k, b :: text =>
    if k < bufsz then
      if fold (mem k) = fold b then standsAt fold mem bufsz (k + 1) text else some false
    else none

/-- `strncasecmp(cp, text, strlen(text)) == 0`. -/
def strncasecmp (mem : Nat → UInt8) (bufsz : Nat) (cp : Nat) (text : Bytes) : Option Bool :=
  standsAt toLower mem bufsz cp text

/-! ## The machine -/

inductive Point where
  /-- `while ((nr = tread(...)) > 0)`. -/
  | respond
  | statusSpace
  | statusDigits
  | reason
  /-- The loop up to the next `C` or `c`, and the test for more header behind it. -/
  | seekLength
  | compareLength
  | lengthSpace
  | lengthDigits
  | afterLength
  /-- The loop up to the empty line. -/
  | seekEnd
  | foundEnd
  | body
  | header
  | returned (success : Nat)
  /-- A byte outside the buffer was read or written. -/
  | undefined
  deriving DecidableEq, Repr

/-- The variables of `printer_status`; pointers into the buffer are offsets from `bp`. -/
structure Status where
  point : Point
  mem : Nat → UInt8
  bufsz : Nat
  datsz : Nat
  cp : Nat
  i : Nat
  /-- `statcode`, then `contentlen`, and the NUL behind it. -/
  start : Nat
  stop : Nat
  len : Int
  response : Response

def Status.initial (heap : Nat → UInt8) (response : Response) : Status :=
  ⟨.respond, heap, iobufsz, 0, 0, 0, 0, 0, 0, response⟩

namespace Status

/-- The rest of the code needs the byte at `cp`. -/
def peek (s : Status) (next : UInt8 → Status) : Status :=
  if s.cp < s.bufsz then next (s.mem s.cp) else { s with point := .undefined }

/-- `readmore` at offset `i`, and what its callers do with the result: it is the offset of the end
of the data, and they add it to `datsz`. -/
def readmore (s : Status) (next : Point) : Status :=
  let bufsz := if s.i ≥ s.bufsz then s.bufsz + iobufsz else s.bufsz
  match s.response.tread (bufsz - s.i) with
  | none => { s with bufsz := bufsz, point := .returned 0 }
  | some (piece, response) =>
    { s with
      bufsz := bufsz
      mem := store s.mem s.i piece
      cp := s.i
      datsz := s.datsz + (s.i + piece.length)
      response := response
      point := next }

def contentLength : Bytes := ascii "Content-Length:"

def httpInfo (code : Int) : Bool := 100 ≤ code && code ≤ 199

def httpSuccess (code : Int) : Bool := 200 ≤ code && code ≤ 299

def step (jobid : Int) (s : Status) : Status :=
  match s.point with
  | .respond =>
    match s.response.tread s.bufsz with
    | none => { s with point := .returned 0 }
    | some (piece, response) =>
      { s with mem := store s.mem 0 piece, datsz := piece.length, cp := 8, response := response, point := .statusSpace }
  | .statusSpace => s.peek fun c =>
    if isSpace c then { s with cp := s.cp + 1 } else { s with start := s.cp, point := .statusDigits }
  | .statusDigits => s.peek fun c =>
    if isDigit c then { s with cp := s.cp + 1 }
    else if s.cp = s.start then { s with point := .respond }
    else { s with mem := store s.mem s.cp [0], stop := s.cp, cp := s.cp + 1, point := .reason }
  | .reason => s.peek fun c =>
    if c ≠ 13 ∧ c ≠ 10 then { s with cp := s.cp + 1 }
    else
      let s := { s with mem := store s.mem s.cp [0] }
      let code := atoi (slice s.mem s.start s.stop)
      if httpInfo code then { s with point := .respond }
      else if httpSuccess code then { s with i := s.cp, point := .seekLength }
      -- the reason is ended with a NUL at `bp[datsz]` before it is logged
      else if s.datsz < s.bufsz then { s with point := .returned 0 }
      else { s with point := .undefined }
  | .seekLength => s.peek fun c =>
    if c ≠ 67 ∧ c ≠ 99 ∧ s.i < s.datsz then { s with cp := s.cp + 1, i := s.i + 1 }
    else if s.i ≥ s.datsz then s.readmore .compareLength
    else { s with point := .compareLength }
  | .compareLength =>
    match strncasecmp s.mem s.bufsz s.cp contentLength with
    | none => { s with point := .undefined }
    | some true => { s with cp := s.cp + 15, point := .lengthSpace }
    | some false => { s with cp := s.cp + 1, i := s.i + 1, point := .seekLength }
  | .lengthSpace => s.peek fun c =>
    if isSpace c then { s with cp := s.cp + 1 } else { s with start := s.cp, point := .lengthDigits }
  | .lengthDigits => s.peek fun c =>
    if isDigit c then { s with cp := s.cp + 1 }
    else
      { s with
        mem := store s.mem s.cp [0]
        stop := s.cp
        cp := s.cp + 1
        i := s.cp + 1
        len := atoi (slice s.mem s.start s.cp)
        point := .afterLength }
  | .afterLength => if s.i ≥ s.datsz then s.readmore .seekEnd else { s with point := .seekEnd }
  | .seekEnd =>
    if s.i + 2 < s.datsz then
      match standsAt id s.mem s.bufsz s.cp [10, 13, 10] with
      | none => { s with point := .undefined }
      | some true => { s with cp := s.cp + 3, i := s.i + 3, point := .foundEnd }
      | some false => { s with cp := s.cp + 1, i := s.i + 1 }
    else if s.i ≥ s.datsz then s.readmore .seekEnd
    else s
  | .foundEnd => if s.i ≥ s.datsz then s.readmore .body else { s with point := .body }
  | .body =>
    if (s.datsz - s.i : Int) < s.len then s.readmore .header else { s with point := .header }
  | .header =>
    if s.cp + 8 ≤ s.bufsz then
      let status := (s.mem (s.cp + 2)).toNat * 256 + (s.mem (s.cp + 3)).toNat
      if cInt (ntohl (slice s.mem (s.cp + 4) (s.cp + 8))) = jobid ∧
        status ≤ 255 then { s with point := .returned 1 }
      else { s with point := .returned 0 }
    else { s with point := .undefined }
  | .returned _ | .undefined => s

/-- The line has no number: it is logged. -/
def Garbled (s : Status) : Prop :=
  s.point = .statusDigits ∧ s.cp = s.start ∧ isDigit (s.mem s.cp) = false

end Status

/-- The buffer is a string, and no conversion is in it. -/
def Printable (mem : Nat → UInt8) (bufsz : Nat) : Prop :=
  0 ∈ slice mem 0 bufsz ∧ (formatted (cstr (slice mem 0 bufsz))).isSome

/-- `log_msg(bp)` is defined where it is called. -/
def Status.Logs (s : Status) : Prop := s.Garbled → Printable s.mem s.bufsz

/-- `printer_status` returns that value. -/
def Returns (jobid : Int) (heap : Nat → UInt8) (response : Response) (success : Nat) : Prop :=
  ∃ turns, ((Status.step jobid)^[turns] (.initial heap response)).point = .returned success

/-- It returns that value and has come back from every call of `log_msg` before. -/
def ReturnsLogging (jobid : Int) (heap : Nat → UInt8) (response : Response)
    (success : Nat) : Prop :=
  ∃ turns, (∀ turn < turns, ((Status.step jobid)^[turn] (.initial heap response)).Logs) ∧
    ((Status.step jobid)^[turns] (.initial heap response)).point = .returned success

/-- The stream cut into the pieces of successive reads. -/
def Cuts (stream : Bytes) (pieces : List Bytes) : Prop := [] ∉ pieces ∧ pieces.flatten = stream

instance (stream : Bytes) (pieces : List Bytes) : Decidable (Cuts stream pieces) :=
  inferInstanceAs (Decidable (_ ∧ _))

/-! ## Every response can be cut badly -/

section Cut

variable {jobid : Int} {s : Status} {ending : Option Errno}

theorem iterate_of_halted {turns turns' : Nat} (le : turns ≤ turns')
    (halted : (Status.step jobid)^[turns] s = Status.step jobid ((Status.step jobid)^[turns] s)) :
    (Status.step jobid)^[turns'] s = (Status.step jobid)^[turns] s := by
  obtain ⟨more, rfl⟩ := Nat.exists_eq_add_of_le' le
  rw [Function.iterate_add_apply]
  exact Function.iterate_fixed halted.symm more

theorem step_of_undefined (undefined : s.point = .undefined) : s = s.step jobid := by
  simp [Status.step, undefined]

theorem step_of_returned {success : Nat} (returned : s.point = .returned success) :
    s = s.step jobid := by
  simp [Status.step, returned]

/-- A run that leaves the buffer returns nothing. -/
theorem not_returns_of_undefined {heap : Nat → UInt8} {response : Response} {turns success : Nat}
    (undefined : ((Status.step jobid)^[turns] (.initial heap response)).point = .undefined) :
    ¬Returns jobid heap response success := by
  rintro ⟨turns', returned⟩
  obtain le | le := Nat.le_total turns turns'
  · rw [iterate_of_halted le (step_of_undefined undefined), undefined] at returned
    cases returned
  · rw [iterate_of_halted le (step_of_returned returned), returned] at undefined
    cases undefined

/-- A buffer with a status line, of which `c` is the first digit, and a header field behind it that
ends in blanks. -/
def planted (c : UInt8) (k : Nat) : UInt8 := if k = 8 then c else (ascii "00 \rContent-Length:").getD (k - 9) 32

theorem planted_blank (c : UInt8) {k : Nat} (behind : 28 ≤ k) : planted c k = 32 := by
  have outside : (ascii "00 \rContent-Length:").length ≤ k - 9 := by
    have length : (ascii "00 \rContent-Length:").length = 19 := by decide
    omega
  rw [planted, if_neg (by omega), List.getD_eq_getElem?_getD, List.getElem?_eq_none outside,
    Option.getD_none]

/-- A comparison looks at no byte in front. -/
theorem standsAt_congr {fold : UInt8 → UInt8} {mem mem' : Nat → UInt8} {bufsz : Nat} {text : Bytes}
    (start : Nat)
    (same : ∀ k, start ≤ k → mem k = mem' k) :
    standsAt fold mem bufsz start text = standsAt fold mem' bufsz start text := by
  induction text generalizing start with
  | nil => rfl
  | cons b text inductionHypothesis =>
    rw [standsAt, standsAt, same start (Nat.le_refl _),
      inductionHypothesis (start + 1) fun k lower => same k (by omega)]

/-- The blanks before the number run to the end of the buffer and past it. -/
theorem undefined_of_blanks (turns : Nat) (left : s.bufsz = s.cp + turns)
    (point : s.point = .lengthSpace)
    (blank : ∀ k, s.cp ≤ k → s.mem k = 32) :
    ((Status.step jobid)^[turns + 1] s).point = .undefined := by
  induction turns generalizing s with
  | zero => simp [Status.step, point, Status.peek, left]
  | succ turns inductionHypothesis =>
    have steps : s.step jobid = { s with cp := s.cp + 1 } := by
      have inside : s.cp < s.bufsz := by omega
      simp [Status.step, point, Status.peek, inside, blank s.cp (Nat.le_refl _), isSpace]
    rw [Function.iterate_succ_apply, steps]
    apply inductionHypothesis
    · simp only
      omega
    · exact point
    · intro k behind
      exact blank k (by simp only at behind; omega)

/-- The digits of the status code, up to the first other byte. -/
theorem statusDigits_run (digits : Nat) (point : s.point = .statusDigits)
    (digit : ∀ k, k < digits → isDigit (s.mem (s.cp + k)) = true) (inside : s.cp + digits < s.bufsz)
    (stops : isDigit (s.mem (s.cp + digits)) = false) (found : s.start < s.cp + digits) :
    (Status.step jobid)^[digits + 1] s =
      { s with
        mem := store s.mem (s.cp + digits) [0]
        stop := s.cp + digits
        cp := s.cp + digits + 1
        point := .reason } := by
  induction digits generalizing s with
  | zero =>
    have behind : ¬s.cp = s.start := by omega
    have stops : isDigit (s.mem s.cp) = false := stops
    have inside : s.cp < s.bufsz := inside
    simp [Status.step, point, Status.peek, inside, stops, behind]
  | succ digits inductionHypothesis =>
    have first : isDigit (s.mem s.cp) = true := digit 0 (by omega)
    have steps : s.step jobid = { s with cp := s.cp + 1 } := by
      have inside : s.cp < s.bufsz := by omega
      simp [Status.step, point, Status.peek, inside, first]
    have ahead : ∀ k, s.cp + 1 + k = s.cp + (k + 1) := by omega
    rw [Function.iterate_succ_apply, steps, inductionHypothesis]
    · simp only [ahead]
    · exact point
    · intro k small
      simp only [ahead]
      exact digit (k + 1) (by omega)
    · simp only [ahead]
      exact inside
    · simp only [ahead]
      exact stops
    · simp only [ahead]
      exact found

section Planted

variable {c : UInt8} {piece : Bytes} {pieces : List Bytes}

/-- A first piece of at most eight bytes leaves the status line as it was. -/
theorem store_planted (short : piece.length ≤ 8) {k : Nat} (behind : 8 ≤ k) :
    store (planted c) 0 piece k = planted c k := by
  rw [store, if_pos (Nat.zero_le k), Nat.sub_zero, List.getD_eq_getElem?_getD,
    List.getElem?_eq_none (by omega),
    Option.getD_none]

theorem planted_reason (digit : isDigit c = true) (nonempty : piece ≠ [])
    (short : piece.length ≤ 8) :
    (Status.step jobid)^[6] (.initial (planted c) ⟨piece :: pieces, ending⟩) =
      ⟨.reason, store (store (planted c) 0 piece) 11 [0], iobufsz, piece.length, 12, 0, 8, 11, 0,
        ⟨pieces, ending⟩⟩ := by
  have whole : piece.take iobufsz = piece ∧ piece.drop iobufsz = [] := by
    have fits : piece.length ≤ iobufsz := Nat.le_trans short (by decide)
    exact ⟨List.take_of_length_le fits, List.drop_of_length_le fits⟩
  have reads : (Status.initial (planted c) ⟨piece :: pieces, ending⟩).step jobid =
      ⟨.statusSpace, store (planted c) 0 piece, iobufsz, piece.length, 8, 0, 0, 0, 0,
        ⟨pieces, ending⟩⟩ := by
    simp [Status.initial, Status.step, Response.tread, whole, nonempty]
  have status : ∀ {k : Nat}, 8 ≤ k → store (planted c) 0 piece k = planted c k :=
    store_planted short
  have starts : Status.step jobid
      ⟨.statusSpace, store (planted c) 0 piece, iobufsz, piece.length, 8, 0, 0, 0, 0,
        ⟨pieces, ending⟩⟩ =
      ⟨.statusDigits, store (planted c) 0 piece, iobufsz, piece.length, 8, 0, 8, 0, 0,
        ⟨pieces, ending⟩⟩ := by
    have noSpace : isSpace c = false := isSpace_of_isDigit digit
    simp [Status.step, Status.peek, status, planted, noSpace, iobufsz]
  rw [Function.iterate_succ_apply, Function.iterate_succ_apply, reads, starts,
    statusDigits_run 3 rfl]
  · intro k small
    simp only [status (Nat.le_add_right 8 k)]
    obtain rfl | rfl | rfl : k = 0 ∨ k = 1 ∨ k = 2 := by omega
    · exact digit
    · rfl
    · rfl
  · simp [iobufsz]
  · change isDigit (store (planted c) 0 piece 11) = false
    rw [status (by omega)]
    rfl
  · simp

theorem planted_code (short : piece.length ≤ 8) :
    slice (store (store (store (planted c) 0 piece) 11 [0]) 12 [0]) 8 11 = [c, 48, 48] := by
  have status : ∀ k, 8 ≤ k → k < 11 → store (store (store (planted c) 0 piece) 11 [0]) 12 [0] k =
      planted c k := by
    intro k lower upper
    rw [store, if_neg (by omega), store, if_neg (by omega), store_planted short lower]
  simp only [slice, Nat.reduceSub, List.range_succ, List.range_zero, List.nil_append, List.map_cons,
    List.map_nil, List.cons_append]
  rw [status 8 (by omega) (by omega), status 9 (by omega) (by omega),
    status 10 (by omega) (by omega)]
  rfl

/-- The line ends at offset 12. -/
theorem planted_cr (short : piece.length ≤ 8) :
    store (store (planted c) 0 piece) 11 [0] 12 = 13 := by
  have status : store (store (planted c) 0 piece) 11 [0] 12 = store (planted c) 0 piece 12 := by
    simp [store]
  rw [status, store_planted short (by omega)]
  rfl

/-- An error code of the printer ends it. -/
theorem planted_error (nonempty : piece ≠ []) (short : piece.length ≤ 8) :
    Returns jobid (planted 53) ⟨piece :: pieces, ending⟩ 0 := by
  have room : piece.length < iobufsz := Nat.lt_of_le_of_lt short (by decide)
  refine ⟨7, ?_⟩
  rw [Function.iterate_succ_apply', planted_reason (by decide) nonempty short]
  simp [Status.step, Status.peek, planted_cr short, planted_code short, room, Status.httpInfo,
    Status.httpSuccess,
    show atoi [53, 48, 48] = 500 by decide, show 12 < iobufsz by decide]

/-- Success: the search for the length starts at offset 12, which is behind the data. -/
theorem planted_success (nonempty : piece ≠ []) (short : piece.length ≤ 8) :
    (Status.step jobid)^[7] (.initial (planted 50) ⟨piece :: pieces, ending⟩) =
      ⟨.seekLength, store (store (store (planted 50) 0 piece) 11 [0]) 12 [0], iobufsz, piece.length,
        12, 12, 8, 11, 0,
        ⟨pieces, ending⟩⟩ := by
  rw [Function.iterate_succ_apply', planted_reason (by decide) nonempty short]
  simp [Status.step, Status.peek, planted_cr short, planted_code short, Status.httpInfo,
    Status.httpSuccess,
    show atoi [50, 48, 48] = 200 by decide, show 12 < iobufsz by decide]

/-- A short response in one piece: there is no more header to get. -/
theorem planted_whole (nonempty : piece ≠ []) (short : piece.length ≤ 8) :
    Returns jobid (planted 50) ⟨[piece], ending⟩ 0 := by
  refine ⟨8, ?_⟩
  rw [Function.iterate_succ_apply', planted_success nonempty short]
  have behind : ¬12 < piece.length := by omega
  have ends : piece.length ≤ 12 := by omega
  simp [Status.step, Status.peek, Status.readmore, Response.tread, behind, ends,
    show 12 < iobufsz by decide]

end Planted

/-- The second byte goes to offset 12, and the planted field behind it is taken for the
printer's. -/
theorem planted_undefined (first second : UInt8) (pieces : List Bytes) (success : Nat) :
    ¬Returns jobid (planted 50) ⟨[first] :: [second] :: pieces, ending⟩ success := by
  let mem := store (store (store (store (planted 50) 0 [first]) 11 [0]) 12 [0]) 12 [second]
  have behind : ∀ k, 13 ≤ k → mem k = planted 50 k := by
    intro k lower
    have past : ∀ (m : Nat → UInt8) (b : UInt8) (j : Nat), j < k → store m j [b] k = m k := by
      intro m b j less
      rw [store, if_pos (by omega), List.getD_eq_getElem?_getD,
        List.getElem?_eq_none (by simp; omega), Option.getD_none]
    simp only [mem]
    rw [past _ _ 12 (by omega), past _ _ 12 (by omega), past _ _ 11 (by omega),
      past _ _ 0 (by omega)]
  have compares : (Status.step jobid)^[8]
      (.initial (planted 50) ⟨[first] :: [second] :: pieces, ending⟩) =
      ⟨.compareLength, mem, iobufsz, 14, 12, 12, 8, 11, 0, ⟨pieces, ending⟩⟩ := by
    rw [Function.iterate_succ_apply', planted_success (by simp) (by simp)]
    simp [Status.step, Status.peek, Status.readmore, Response.tread, iobufsz, mem]
  -- whatever the second byte is, the `C` behind it is no `o`
  have differs : Status.step jobid ⟨.compareLength, mem, iobufsz, 14, 12, 12, 8, 11, 0,
      ⟨pieces, ending⟩⟩ =
      ⟨.seekLength, mem, iobufsz, 14, 13, 13, 8, 11, 0, ⟨pieces, ending⟩⟩ := by
    have next : mem 13 = 67 := behind 13 (by omega)
    have compared : strncasecmp mem iobufsz 12 Status.contentLength = some false := by
      rw [strncasecmp, show Status.contentLength = 67 :: 111 :: ascii "ntent-Length:" from rfl, standsAt, standsAt, next]
      simp [iobufsz, toLower]
    simp [Status.step, compared]
  have field : (Status.step jobid)^[2] ⟨.seekLength, mem, iobufsz, 14, 13, 13, 8, 11, 0,
      ⟨pieces, ending⟩⟩ =
      ⟨.lengthSpace, mem, iobufsz, 14, 28, 13, 8, 11, 0, ⟨pieces, ending⟩⟩ := by
    have next : mem 13 = 67 := behind 13 (by omega)
    have compared : strncasecmp mem iobufsz 13 Status.contentLength = some true := by
      rw [strncasecmp, standsAt_congr 13 fun k lower => behind k lower]
      decide
    simp [Status.step, Status.peek, next, compared, show 13 < iobufsz by decide]
  have leaves : ((Status.step jobid)^[8164 + 1] ⟨.lengthSpace, mem, iobufsz, 14, 28, 13, 8, 11, 0,
      ⟨pieces, ending⟩⟩).point =
      .undefined :=
    undefined_of_blanks 8164 rfl rfl fun k lower =>
      (behind k (Nat.le_trans (by decide : 13 ≤ 28) lower)).trans (planted_blank 50 lower)
  refine @not_returns_of_undefined _ _ _ ((8164 + 1) + (2 + (1 + 8))) _ ?_
  rw [Function.iterate_add_apply, Function.iterate_add_apply _ 2,
    Function.iterate_add_apply _ 1, compares,
    Function.iterate_one, differs, field, leaves]

/-- A first piece of nine bytes or more covers the first digit. -/
theorem initial_covered {piece : Bytes} {pieces : List Bytes} (long : 9 ≤ piece.length)
    (c c' : UInt8) :
    (Status.initial (planted c) ⟨piece :: pieces, ending⟩).step jobid =
      (Status.initial (planted c') ⟨piece :: pieces, ending⟩).step jobid := by
  have taken : 9 ≤ (piece.take iobufsz).length := by
    rw [List.length_take, iobufsz]
    omega
  have nonempty : piece.take iobufsz ≠ [] := List.length_pos_iff.mp (by omega)
  have covered : store (planted c) 0 (piece.take iobufsz) = store (planted c') 0
      (piece.take iobufsz) := by
    funext k
    rw [store, store, if_pos (Nat.zero_le k), if_pos (Nat.zero_le k), Nat.sub_zero,
      List.getD_eq_getElem?_getD,
      List.getD_eq_getElem?_getD]
    by_cases eighth : k = 8
    · rw [List.getElem?_eq_getElem (by omega), Option.getD_some, Option.getD_some]
    · rw [planted, planted, if_neg eighth, if_neg eighth]
  have reads : ∀ pieces, Response.tread ⟨piece :: pieces, ending⟩ iobufsz =
      some (piece.take iobufsz,
      ⟨if piece.drop iobufsz = [] then pieces else piece.drop iobufsz :: pieces, ending⟩) :=
    fun _ => if_neg nonempty
  simp only [Status.initial, Status.step, reads, covered]

theorem returns_covered {piece : Bytes} {pieces : List Bytes} {c c' : UInt8} {success : Nat}
    (long : 9 ≤ piece.length)
    (returns : Returns jobid (planted c) ⟨piece :: pieces, ending⟩ success) :
    Returns jobid (planted c') ⟨piece :: pieces, ending⟩ success := by
  obtain ⟨turns, returned⟩ := returns
  cases turns with
  | zero => simp [Status.initial] at returned
  | succ turns => exact ⟨turns + 1, by rw [Function.iterate_succ_apply, initial_covered long c' c]; exact returned⟩

/-- Two bytes apart from the rest. -/
theorem cuts_apart (first second : UInt8) (rest : Bytes) :
    Cuts (first :: second :: rest) ([first] :: [second] :: if rest = [] then [] else [rest]) := by
  by_cases empty : rest = []
  · subst empty
    simp [Cuts]
  · simp [Cuts, empty, Ne.symm empty]

theorem cuts_unique {stream : Bytes} {pieces pieces' : List Bytes} (short : stream.length ≤ 1)
    (cuts : Cuts stream pieces)
    (cuts' : Cuts stream pieces') : pieces = pieces' := by
  have only : ∀ {pieces : List Bytes}, Cuts stream pieces →
      pieces = if stream = [] then [] else [stream] := by
    intro pieces cuts
    obtain ⟨nonempty, flat⟩ := cuts
    cases pieces with
    | nil => simp at flat; simp [flat]
    | cons piece pieces =>
      have pieceLength : 0 < piece.length :=
        List.length_pos_iff.mpr fun empty => nonempty (by simp [empty])
      have lengths := congrArg List.length flat
      simp only [List.flatten_cons, List.length_append] at lengths
      have none : pieces.flatten = [] := List.length_eq_zero_iff.mp (by omega)
      have rest : pieces = [] := by
        rw [List.flatten_eq_nil_iff] at none
        cases pieces with
        | nil => rfl
        | cons other pieces => exact absurd (by simp [none other (by simp)]) nonempty
      subst rest
      simp only [List.flatten_cons, List.flatten_nil, List.append_nil] at flat
      subst flat
      rw [if_neg (List.length_pos_iff.mp pieceLength)]
  rw [only cuts, only cuts']

end Cut

/-- However the response is cut the value is the same, with any contents of the fresh buffer,
exactly when there is only one way to cut it. -/
theorem status_independent_of_cuts_iff (jobid : Int) (ending : Option Errno) (stream : Bytes) :
    (∀ heap pieces pieces', Cuts stream pieces → Cuts stream pieces' →
      ∀ success, Returns jobid heap ⟨pieces, ending⟩ success ↔
        Returns jobid heap ⟨pieces', ending⟩ success) ↔
        stream.length ≤ 1 := by
  constructor
  · intro same
    match stream with
    | [] | [_] => simp
    | first :: second :: rest =>
      exfalso
      have cuts : Cuts (first :: second :: rest) [first :: second :: rest] := by simp [Cuts]
      have agree : ∀ c, Returns jobid (planted c) ⟨[first :: second :: rest], ending⟩ 0 ↔
          _ := fun c =>
        same (planted c) _ _ cuts (cuts_apart first second rest) 0
      -- with a 2 in the heap the response cut apart leads out of the buffer, with a 5 it is an error
      have lost := fun returns => planted_undefined first second _ 0 ((agree 50).mp returns)
      by_cases long : 9 ≤ (first :: second :: rest).length
      · have error := (agree 53).mpr (planted_error (by simp) (by simp))
        exact lost (returns_covered long error)
      · exact lost (planted_whole (by simp) (by omega))
  · intro short heap pieces pieces' cuts cuts' success
    rw [cuts_unique short cuts cuts']

/-- A response that tells of success, whole and cut in the middle of the IPP header. -/
def okResponse : Bytes := ascii "HTTP/1.1 200 OK\r\nContent-Length: 8\r\n\r\n" ++ [1, 1, 0, 0] ++ [0, 0, 0, 5]

def okCut : List Bytes := [ascii "HTTP/1.1 200 OK\r\nContent-Length: 8\r\n\r\n" ++ [1, 1, 0, 0], [0, 0, 0, 5]]

/-- The second piece overwrites the first bytes of the header, and the request counts as failed. -/
theorem status_depends_on_cuts :
    ¬∀ pieces pieces', Cuts okResponse pieces → Cuts okResponse pieces' → ∀ success,
    Returns 5 (fun _ => 0) ⟨pieces, none⟩ success ↔
      Returns 5 (fun _ => 0) ⟨pieces', none⟩ success := by
  intro same
  have whole : Returns 5 (fun _ => 0) ⟨[okResponse], none⟩ 1 := ⟨60, by decide +kernel⟩
  obtain ⟨turns, success⟩ := (same [okResponse] okCut (by decide) (by decide) 1).mp whole
  have failure : ((Status.step 5)^[60] (.initial (fun _ => 0) ⟨okCut, none⟩)).point =
    .returned 0 := by decide +kernel
  obtain le | le := Nat.le_total turns 60
  · rw [iterate_of_halted le (step_of_returned success), success] at failure
    cases failure
  · rw [iterate_of_halted le (step_of_returned failure), failure] at success
    cases success

end Apue.Printer
