import Apue.Printer.Submission
import Apue.Printer.PrintRequest

/-! # The client sends a file

`submit_file` sends a header and then the file, and prints the number of the job if the server
accepts it.  A read error gives `nr` the value -1, which becomes the largest `size_t` as the count
for `writen`; the write fails, and `nw` is -1 as well.  So the copy loop goes on, and does not end
if the error persists.
-/

namespace Apue.Printer.Client

open Apue.Base Submission

/-! ## The code -/

def ssizeMax : Nat := 2 ^ 63 - 1

def einval : Errno := ⟨22, by decide⟩

/-- `write(fd, ptr, nleft)`; a count above `SSIZE_MAX` is an error. -/
def write (wire : Wire) (ptr : Bytes) (nleft : Nat) : Except Errno Nat × Wire :=
  if ssizeMax < nleft then (.error einval, wire) else wire.write (ptr.take nleft)

/-- The loop of `writen` with the count as an argument of its own; every turn writes at least one
byte. -/
def writenTurns (n : Nat) : Nat → Nat → Bytes → Wire → Except Errno Nat × Wire
  | 0, nleft, _, wire => (.ok (n - nleft), wire)
  | turns + 1, nleft, ptr, wire =>
    if nleft = 0 then (.ok (n - nleft), wire)
    else
      match write wire ptr nleft with
      | (.error errno, wire) => (if nleft = n then .error errno else .ok (n - nleft), wire)
      | (.ok nwritten, wire) =>
        if nwritten = 0 then (.ok (n - nleft), wire)
        else writenTurns n turns (nleft - nwritten) (ptr.drop nwritten) wire

/-- `writen(sockfd, ptr, n)` with the result as the `int` it is assigned to. -/
def writenInt (wire : Wire) (ptr : Bytes) (n : Nat) : Int × Wire :=
  match writenTurns n (n + 1) n ptr wire with
  | (.error _, wire) => (-1, wire)
  | (.ok nw, wire) => (cInt nw, wire)

/-- What the reads of the document find: chunks of at most `IOBUFSZ` bytes, and then its end or an
error that persists. -/
structure Document where
  chunks : List Bytes
  failing : Bool
  sizes : ∀ chunk ∈ chunks, 0 < chunk.length ∧ chunk.length ≤ iobufsz

/-- `read(fd, buf, IOBUFSZ)` -/
def Document.read (document : Document) (buf : Bytes) : Int × Bytes × Document :=
  match document with
  | ⟨[], failing, sizes⟩ => (if failing then -1 else 0, buf, ⟨[], failing, sizes⟩)
  | ⟨chunk :: chunks, failing, sizes⟩ =>
    (chunk.length, overlay chunk buf,
      ⟨chunks, failing, fun chunk member => sizes chunk (List.mem_cons_of_mem _ member)⟩)

/-- How `submit_file` ends. -/
inductive Outcome where
  | jobId (jobid : Int)
  | rejected (msg : Bytes)
  /-- `err_sys("can't write to print server")` -/
  | cantWrite
  /-- `err_quit("short write (%d/%d) to print server", nw, nr)` -/
  | shortWrite (nw nr : Int)
  /-- `err_sys("can't read response from server")` -/
  | cantRead
  deriving DecidableEq, Repr

def writeFailure (nw nr : Int) : Outcome := if nw < 0 then .cantWrite else .shortWrite nw nr

/-- The copy loop, with so many turns; no outcome when it ends. -/
def copyLoop : Nat → Document → Bytes → Wire → Option (Option Outcome × Wire)
  | 0, _, _, _ => none
  | turns + 1, document, buf, wire =>
    let (nr, buf, document) := document.read buf
    if nr = 0 then some (none, wire)
    else
      let (nw, wire) := writenInt wire buf (sizeT nr)
      if nw ≠ nr then some (some (writeFailure nw nr), wire) else copyLoop turns document buf wire

/-- What is printed for the response, or that `readn` did not read it in full. -/
def answer : Option PrintResp → Outcome
  | none => .cantRead
  | some res => if res.retcode ≠ 0 then .rejected (cstr res.msg) else .jobId res.jobid

/-- `submit_file` from the header on; `req` is the structure in memory, and `buf` has any
contents. -/
def submitFile (turns : Nat) (req : Vector UInt8 sizeofReq) (document : Document) (buf : Bytes)
    (response : Option PrintResp)
    (wire : Wire) : Option (Outcome × Wire) := do
  let (nw, wire) := writenInt wire req.toList sizeofReq
  if nw ≠ sizeofReq then some (writeFailure nw sizeofReq, wire)
  else do
    let (outcome, wire) ← copyLoop turns document buf wire
    some (outcome.getD (answer response), wire)

/-! ## What is promised -/

/-- `submit_file` ends, and prints a job number only if the file was read to its end and everything
was sent in order. -/
def Submits (req : Vector UInt8 sizeofReq) (document : Document) (buf : Bytes)
    (response : Option PrintResp) (wire : Wire) : Prop :=
  (∃ turns result, submitFile turns req document buf response wire = some result) ∧
    ∀ turns jobid wire', submitFile turns req document buf response wire =
      some (.jobId jobid, wire') →
      document.failing = false ∧ wire'.sent = wire.sent ++ req.toList ++ document.chunks.flatten

/-- The socket takes all of these in full, one after the other. -/
def TakesAll : Wire → List Bytes → Prop
  | _, [] => True
  | wire, bytes :: rest =>
    (writen wire bytes).1 = .ok bytes.length ∧ TakesAll (writen wire bytes).2 rest

/-! ## One call of `writen` -/

section Writen

variable {wire wire' : Wire} {ptr : Bytes} {n nleft : Nat}

theorem writenTurns_eq (turns : Nat) (wire : Wire) (inside : nleft ≤ ptr.length)
    (small : nleft ≤ ssizeMax) :
    writenTurns n turns nleft ptr wire = writenLoop n turns (ptr.take nleft) wire := by
  induction turns generalizing nleft ptr wire with
  | zero =>
    have length : (ptr.take nleft).length = nleft := List.length_take_of_le inside
    simp only [writenTurns, writenLoop, length]
  | succ turns inductionHypothesis =>
    have length : (ptr.take nleft).length = nleft := List.length_take_of_le inside
    simp only [writenTurns, writenLoop, length, write, if_neg (Nat.not_lt.mpr small)]
    split
    · rfl
    · cases wire.write (ptr.take nleft) with
      | mk result wire =>
        cases result with
        | error errno => rfl
        | ok nwritten =>
          dsimp only
          split
          · rfl
          · rw [inductionHypothesis wire (by rw [List.length_drop]; omega) (by omega),
              List.drop_take]

/-- A count that is not larger than an `int`: `writen` returns it just when everything is sent. -/
theorem writenInt_cases (wire : Wire) (inside : n ≤ ptr.length) (small : n < 2 ^ 31) :
    ∃ nw, writenInt wire ptr n = (nw, (writen wire (ptr.take n)).2) ∧
      (nw = n ↔ (writen wire (ptr.take n)).1 = .ok n) ∧
      (nw = n → (writen wire (ptr.take n)).2.sent = wire.sent ++ ptr.take n) := by
  have length : (ptr.take n).length = n := List.length_take_of_le inside
  have same : writenTurns n (n + 1) n ptr wire = writen wire (ptr.take n) := by
    rw [writenTurns_eq (n + 1) wire inside (by simp only [ssizeMax]; omega), writen, length]
  rw [writenInt, same]
  cases written : writen wire (ptr.take n) with
  | mk result wire' =>
    cases result with
    | error errno =>
      refine ⟨-1, rfl, ?_, fun absurd => by omega⟩
      constructor
      · intro absurd
        omega
      · intro absurd
        cases absurd
    | ok nw =>
      obtain ⟨done, sent, front, count⟩ := writen_sent written
      have isCount := count nw rfl
      have atMost := front.length_le
      rw [length] at atMost
      refine ⟨nw, by simp only [cInt_of_small (show nw < 2 ^ 31 by omega)], by simp, fun whole => ?_⟩
      rw [sent, front.eq_of_length (by rw [length]; omega)]

theorem sizeT_error : sizeT (-1) = 2 ^ 64 - 1 := by decide

/-- The count that a read error becomes. -/
theorem writenInt_error (wire : Wire) (ptr : Bytes) :
    writenInt wire ptr (sizeT (-1)) = (-1, wire) := by
  have large : ssizeMax < 2 ^ 64 - 1 := by decide
  have positive : ¬(2 ^ 64 - 1 : Nat) = 0 := by decide
  rw [sizeT_error, writenInt, writenTurns, if_neg positive, write, if_pos large]
  simp

end Writen

/-! ## The copy loop -/

section Loop

variable {document : Document} {wire wire' : Wire} {response : Option PrintResp}
    {req : Vector UInt8 sizeofReq}

theorem take_overlay (bytes old : Bytes) : (overlay bytes old).take bytes.length = bytes := by
  simp [overlay]

/-- One turn with a chunk. -/
theorem copyLoop_chunk (turns : Nat) (failing : Bool) {chunk : Bytes} {chunks : List Bytes}
    (sizes : ∀ chunk' ∈ chunk :: chunks, 0 < chunk'.length ∧ chunk'.length ≤ iobufsz) (buf : Bytes)
    (wire : Wire) :
    ∃ nw : Int, (nw = chunk.length ↔ (writen wire chunk).1 = .ok chunk.length) ∧
      (nw = chunk.length → (writen wire chunk).2.sent = wire.sent ++ chunk) ∧
      copyLoop (turns + 1) ⟨chunk :: chunks, failing, sizes⟩ buf wire =
        if nw ≠ chunk.length then some (some (writeFailure nw chunk.length), (writen wire chunk).2)
        else copyLoop turns ⟨chunks, failing, fun chunk' member =>
          sizes chunk' (List.mem_cons_of_mem _ member)⟩
          (overlay chunk buf) (writen wire chunk).2 := by
  obtain ⟨positive, atMost⟩ := sizes chunk List.mem_cons_self
  have small : chunk.length < 2 ^ 31 := Nat.lt_of_le_of_lt atMost (by decide)
  have inside : chunk.length ≤ (overlay chunk buf).length := by simp [overlay]
  obtain ⟨nw, run, iff, sent⟩ := writenInt_cases wire inside small
  rw [take_overlay] at run iff sent
  refine ⟨nw, iff, sent, ?_⟩
  have notEnd : ¬((chunk.length : Nat) : Int) = 0 := by omega
  simp only [copyLoop, Document.read, if_neg notEnd,
    sizeT_natCast (show chunk.length < 2 ^ 64 by omega), run]

/-- Where the loop ends all chunks have been written and the document has been read to its end, or a
write has failed. -/
theorem copyLoop_result (turns : Nat) {buf : Bytes} {outcome : Option Outcome}
    (run : copyLoop turns document buf wire = some (outcome, wire')) :
    (outcome = none ∧ document.failing = false ∧
      wire'.sent = wire.sent ++ document.chunks.flatten) ∨
      ∃ nw nr, outcome = some (writeFailure nw nr) := by
  induction turns generalizing document buf wire with
  | zero => cases run
  | succ turns inductionHypothesis =>
    obtain ⟨chunks, failing, sizes⟩ := document
    cases chunks with
    | nil =>
      cases failing with
      | false =>
        simp only [copyLoop, Document.read, Bool.false_eq_true, if_false, if_true,
          Option.some.injEq, Prod.mk.injEq] at run
        obtain ⟨rfl, rfl⟩ := run
        exact Or.inl ⟨rfl, rfl, by simp⟩
      | true =>
        simp only [copyLoop, Document.read, if_true, writenInt_error] at run
        rw [if_neg (by decide), if_neg (by simp)] at run
        exact inductionHypothesis run
    | cons chunk chunks =>
      obtain ⟨nw, _, sent, turn⟩ := copyLoop_chunk turns failing sizes buf wire
      rw [turn] at run
      split at run
      next => exact Or.inr ⟨nw, chunk.length, (Prod.mk.inj (Option.some.inj run)).1.symm⟩
      next whole =>
        refine (inductionHypothesis run).imp_left ?_
        rintro ⟨ended, notFailing, sent'⟩
        exact ⟨ended, notFailing, by rw [sent', sent (by simpa using whole), List.flatten_cons, List.append_assoc]⟩

/-- A chunk that the socket does not take ends the loop, and so does the end of the document. -/
theorem copyLoop_ends (chunks : List Bytes) {failing : Bool}
    (sizes : ∀ chunk ∈ chunks, 0 < chunk.length ∧ chunk.length ≤ iobufsz) (buf : Bytes)
    (wire : Wire)
    (stops : failing = false ∨ ¬TakesAll wire chunks) :
    ∃ result, copyLoop (chunks.length + 1) ⟨chunks, failing, sizes⟩ buf wire = some result := by
  induction chunks generalizing buf wire with
  | nil =>
    obtain rfl | notTaken := stops
    · exact ⟨(none, wire), by simp [copyLoop, Document.read]⟩
    · exact absurd trivial notTaken
  | cons chunk chunks inductionHypothesis =>
    obtain ⟨nw, iff, _, turn⟩ := copyLoop_chunk (chunks.length + 1) failing sizes buf wire
    rw [List.length_cons, turn]
    split
    next => exact ⟨_, rfl⟩
    next whole =>
      apply inductionHypothesis
      refine stops.imp_right fun notTaken later => notTaken ⟨iff.mp (by simpa using whole), later⟩

/-- Behind chunks that the socket takes, a read error that persists keeps the loop going. -/
theorem copyLoop_diverges (turns : Nat) (chunks : List Bytes)
    (sizes : ∀ chunk ∈ chunks, 0 < chunk.length ∧ chunk.length ≤ iobufsz) (buf : Bytes)
    (wire : Wire)
    (takes : TakesAll wire chunks) : copyLoop turns ⟨chunks, true, sizes⟩ buf wire = none := by
  induction turns generalizing chunks buf wire with
  | zero => rfl
  | succ turns inductionHypothesis =>
    cases chunks with
    | nil =>
      simp only [copyLoop, Document.read, if_true, writenInt_error]
      rw [if_neg (by decide), if_neg (by simp)]
      exact inductionHypothesis [] sizes buf wire trivial
    | cons chunk chunks =>
      obtain ⟨nw, iff, _, turn⟩ := copyLoop_chunk turns true sizes buf wire
      rw [turn, if_neg (by simpa using iff.mpr takes.1)]
      exact inductionHypothesis chunks _ _ _ takes.2

end Loop

/-! ## The whole submission -/

section Submission

variable {document : Document} {wire wire' : Wire} {response : Option PrintResp}
    {req : Vector UInt8 sizeofReq} {buf : Bytes}

/-- The header, and then the copy loop. -/
theorem submitFile_header (req : Vector UInt8 sizeofReq) (wire : Wire) :
    ∃ nw : Int, (nw = sizeofReq ↔ (writen wire req.toList).1 = .ok req.toList.length) ∧
      (nw = sizeofReq → (writen wire req.toList).2.sent = wire.sent ++ req.toList) ∧
      ∀ turns document buf response, submitFile turns req document buf response wire =
        if nw ≠ sizeofReq then some (writeFailure nw sizeofReq, (writen wire req.toList).2)
        else (copyLoop turns document buf (writen wire req.toList).2).map fun result =>
          (result.1.getD (answer response), result.2) := by
  have length : req.toList.length = sizeofReq := req.length_toList
  obtain ⟨nw, run, iff, sent⟩ :=
    writenInt_cases wire (Nat.le_of_eq length.symm) (show sizeofReq < 2 ^ 31 by decide)
  rw [List.take_of_length_le (Nat.le_of_eq length)] at run iff sent
  refine ⟨nw, by rw [length]; exact iff, sent, fun turns document buf response => ?_⟩
  simp only [submitFile, run]
  split
  · rfl
  · cases copyLoop turns document buf (writen wire req.toList).2 <;> rfl

theorem writeFailure_ne (nw nr jobid : Int) : writeFailure nw nr ≠ .jobId jobid := by
  unfold writeFailure
  split <;> simp

/-- A job number is printed only behind a copy loop that has come to its end. -/
theorem submitFile_jobId (turns : Nat) {jobid : Int}
    (run : submitFile turns req document buf response wire = some (.jobId jobid, wire')) :
    document.failing = false ∧ wire'.sent = wire.sent ++ req.toList ++ document.chunks.flatten := by
  obtain ⟨nw, _, sent, unfolded⟩ := submitFile_header req wire
  rw [unfolded] at run
  split at run
  · exact absurd (Prod.mk.inj (Option.some.inj run)).1 (writeFailure_ne _ _ _)
  next whole =>
    cases copied : copyLoop turns document buf (writen wire req.toList).2 with
    | none =>
      rw [copied] at run
      cases run
    | some result =>
      obtain ⟨outcome, wire''⟩ := result
      rw [copied] at run
      obtain ⟨isJobId, rfl⟩ := Prod.mk.inj (Option.some.inj run)
      obtain ⟨rfl, notFailing, sent'⟩ | ⟨nw', nr, rfl⟩ := copyLoop_result turns copied
      · exact ⟨notFailing, by rw [sent', sent (by simpa using whole)]⟩
      · exact absurd isJobId (writeFailure_ne nw' nr jobid)

theorem submitFile_diverges (turns : Nat) (document : Document)
    (isFailing : document.failing = true)
    (takes : TakesAll wire (req.toList :: document.chunks)) :
    submitFile turns req document buf response wire = none := by
  obtain ⟨chunks, failing, sizes⟩ := document
  obtain ⟨nw, iff, _, unfolded⟩ := submitFile_header req wire
  obtain rfl : failing = true := isFailing
  rw [unfolded, if_neg (by simpa using iff.mpr takes.1),
    copyLoop_diverges turns chunks sizes _ _ takes.2]
  rfl

/-- `submit_file` does what is promised just when the reads of the document end with its end, or the
header or a chunk that is read before the error is not taken in full. -/
theorem submits_iff (req : Vector UInt8 sizeofReq) (document : Document) (buf : Bytes)
    (response : Option PrintResp) (wire : Wire) :
    Submits req document buf response wire ↔
      document.failing = false ∨ ¬TakesAll wire (req.toList :: document.chunks) := by
  obtain ⟨chunks, failing, sizes⟩ := document
  obtain ⟨nw, iff, _, unfolded⟩ := submitFile_header req wire
  constructor
  · rintro ⟨⟨turns, result, run⟩, _⟩
    by_contra neither
    rw [not_or, not_not] at neither
    obtain ⟨isFailing, taken, takes⟩ := neither
    have isTrue : failing = true := by simpa using isFailing
    subst isTrue
    rw [submitFile_diverges turns _ rfl ⟨taken, takes⟩] at run
    cases run
  · intro stops
    refine ⟨?_, fun turns jobid wire' run => submitFile_jobId turns run⟩
    by_cases whole : nw = sizeofReq
    · have stops' : failing = false ∨ ¬TakesAll (writen wire req.toList).2 chunks :=
        stops.imp_right fun notTaken later => notTaken ⟨iff.mp whole, later⟩
      obtain ⟨result, copied⟩ := copyLoop_ends chunks sizes buf (writen wire req.toList).2 stops'
      exact ⟨chunks.length + 1, _, by rw [unfolded, if_neg (by simpa using whole), copied]; rfl⟩
    · exact ⟨0, _, by rw [unfolded, if_pos whole]⟩

/-- A write that takes everything at once. -/
theorem writen_at_once {bytes : Bytes} (nonempty : bytes ≠ []) (sent : Bytes)
    (results : List (Except Errno Nat)) :
    writen ⟨sent, .ok bytes.length :: results⟩ bytes =
      (.ok bytes.length, ⟨sent ++ bytes, results⟩) := by
  have positive : bytes.length ≠ 0 := by simpa using nonempty
  cases turns : bytes.length with
  | zero => exact absurd turns positive
  | succ turns' =>
    rw [writen, turns, writenLoop, turns, if_neg (Nat.succ_ne_zero turns')]
    simp [Wire.write, ← turns, writenLoop, nonempty]

/-- A document of two bytes, then a read error, and a socket that takes everything. -/
theorem submit_hangs :
    ¬Submits (Vector.replicate sizeofReq 0) ⟨[[37, 33]], true, by decide⟩ [] (some ⟨0, 1, []⟩)
    ⟨[], [.ok sizeofReq, .ok 2]⟩ := by
  rintro ⟨⟨turns, result, run⟩, _⟩
  have isHeader : (Vector.replicate sizeofReq (0 : UInt8)).toList.length = sizeofReq :=
    Vector.length_toList
  have header := writen_at_once (List.ne_nil_of_length_pos (by rw [isHeader]; decide)) [] [.ok 2]
  rw [isHeader] at header
  have takes : TakesAll ⟨[], [.ok sizeofReq, .ok 2]⟩
      [(Vector.replicate sizeofReq (0 : UInt8)).toList, [37, 33]] := by
    refine ⟨by rw [header, isHeader], ?_, trivial⟩
    rw [header]
    rfl
  rw [submitFile_diverges turns _ rfl takes] at run
  cases run

end Submission

end Apue.Printer.Client
