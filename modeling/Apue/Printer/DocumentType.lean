import Apue.Printer.Receive

/-! # The type of a document and the reads that deliver it

`client_thread` takes a document for a plain text unless it begins with `%!PS`.  It compares when
the first read has returned, four bytes of the buffer, and that read may have returned fewer.  Two
runs that receive the same bytes in other pieces may then disagree about the type.  Here is when
they do: only a first piece that is a proper front of `%!PS` lets the bytes that were in the buffer
before decide.
-/

namespace Apue.Printer

open Apue.Base

/-- `%!PS` -/
def postScript : Bytes := [37, 33, 80, 83]

/-- A run in which the header is read, the document comes in the pieces, and every file operation
succeeds. -/
structure Receives (ops : SpoolOps) (socket : Socket) (header : Bytes)
    (parts : List Bytes) : Prop where
  reads : ∃ after, treadn socket sizeofReq = (.ok header, after) ∧ after.document = parts
  whole : header.length = sizeofReq
  creatData : ops.creatData = none
  writes : ops.WritesAll 0 parts
  creatControl : ops.creatControl = none
  writeControl : ops.writeControl = .ok sizeofReq

/-- What the flags of a request have to be: a plain text is one that does not begin like
PostScript. -/
def documentFlags (header stream : Bytes) : Nat :=
  if stream ≠ [] ∧ ¬postScript <+: stream then (decodeReq header).flags |||
    prText else (decodeReq header).flags

/-- The run has spooled the document, with the flags that its bytes call for. -/
def Classified (spooled : Spooled) (header stream : Bytes) : Prop :=
  spooled.data = some stream ∧
    spooled.control.map PrintReq.flags = some (documentFlags header stream)

/-- The header says that the document is a plain text, or the first piece is not a proper front of
`%!PS`, or what is behind it in the buffer makes it `%!PS` just when what is behind it in the stream
does. -/
def Settled (ops : SpoolOps) (header : Bytes) (parts : List Bytes) : Prop :=
  (decodeReq header).flags ||| prText = (decodeReq header).flags ∨ ∀ first ∈ parts.head?,
    first.length < 4 → first <+: postScript →
    ((ops.buf.drop first.length).take (4 - first.length) = postScript.drop first.length ↔
      (parts.flatten.drop first.length).take (4 - first.length) = postScript.drop first.length)

/-! ## What a run decides -/

/-- The first piece decides. -/
def markFirst (buf : Bytes) (parts : List Bytes) (req : PrintReq) : PrintReq :=
  match parts with
  | [] => req
  | first :: _ => markText (overlay first buf) req

variable {ops ops₁ ops₂ : SpoolOps} {socket socket₁ socket₂ : Socket} {header : Bytes}
    {parts parts₁ parts₂ : List Bytes}

theorem receiveLoop_first (turns i : Nat) (first : Bool) (req : PrintReq) (data : Bytes)
    (socket : Socket)
    (writes : ops.WritesAll i (chunks turns socket)) :
    receiveLoop ops turns i first req data socket =
      .ok (if first then markFirst ops.buf (chunks turns socket) req else req,
        data ++ (chunks turns socket).flatten) := by
  induction turns generalizing i first req data socket with
  | zero => cases first <;> simp [receiveLoop, chunks, markFirst]
  | succ turns inductionHypothesis =>
    rcases answer : tread socket iobufsz with ⟨_ | chunk, socket'⟩
    · cases first <;> simp [receiveLoop, chunks, answer, markFirst]
    · simp only [receiveLoop, chunks, answer] at writes ⊢
      by_cases none : chunk.length = 0
      · cases first <;> simp [none, markFirst]
      · simp only [none, if_false] at writes ⊢
        -- every later turn keeps the flags that the first one has set
        obtain ⟨written, later⟩ := writesAll_cons.1 writes
        rw [if_pos written, inductionHypothesis (i + 1) false _ _ _ later]
        cases first <;> simp [markFirst]

/-- A run without errors leaves the document and the request in the spool directory. -/
theorem clientThread_eq (receives : Receives ops socket header parts) :
    clientThread ops socket =
      ⟨some parts.flatten, some (markFirst ops.buf parts (decodeReq header)), 0, ops.jobid⟩ := by
  obtain ⟨after, reads, document⟩ := receives.reads
  have loop := receiveLoop_first (after.arrivals.length + 1) 0 true (decodeReq header) [] after
    (document.symm ▸ receives.writes)
  rw [if_pos rfl, List.nil_append] at loop
  change receiveLoop _ _ _ _ _ _ _ = .ok (markFirst ops.buf after.document _,
    after.document.flatten) at loop
  rw [document] at loop
  simp only [clientThread, reads, receives.whole, ne_eq, not_true_eq_false, if_false,
    receives.creatData, loop, receives.creatControl,
    receives.writeControl, if_true]

theorem ne_nil_of_mem_chunks {turns : Nat} {socket : Socket} {part : Bytes}
    (member : part ∈ chunks turns socket) : part ≠ [] := by
  induction turns generalizing socket with
  | zero => cases member
  | succ turns inductionHypothesis =>
    simp only [chunks] at member
    split at member
    case h_1 => cases member
    case h_2 chunk socket' answer =>
      split at member
      case isTrue => cases member
      case isFalse some =>
        obtain rfl | member := List.mem_cons.1 member
        · exact fun none => some (by rw [none, List.length_nil])
        · exact inductionHypothesis member

/-- A short piece makes `%!PS` with what is behind it if it is the front and the rest is the
rest. -/
theorem take_postScript {first : Bytes} (short : first.length < 4) (rest : Bytes) :
    (first ++ rest).take 4 = postScript ↔ first <+: postScript ∧
    rest.take (4 - first.length) = postScript.drop first.length := by
  have taken : (first ++ rest).take 4 = first ++ rest.take (4 - first.length) := by
    rw [List.take_append, List.take_of_length_le (Nat.le_of_lt short)]
  rw [taken, List.prefix_iff_eq_take]
  constructor
  · intro whole
    exact ⟨by rw [← whole, List.take_left], by rw [← whole, List.drop_left]⟩
  · intro parts
    have whole := List.take_append_drop first.length postScript
    rwa [← parts.1, ← parts.2] at whole

theorem take_postScript_long {first : Bytes} (long : 4 ≤ first.length) (rest : Bytes) :
    (first ++ rest).take 4 = postScript ↔ first.take 4 = postScript := by
  rw [List.take_append_of_le_length long]

/-- Whether the four bytes are `%!PS` depends on what is behind a short front of it, and on nothing
else. -/
theorem compare_iff {first behind rest : Bytes} :
    ((first ++ behind).take 4 = postScript ↔ (first ++ rest).take 4 = postScript) ↔
      (first.length < 4 → first <+: postScript →
      (behind.take (4 - first.length) = postScript.drop first.length ↔
        rest.take (4 - first.length) = postScript.drop first.length)) := by
  -- a long piece decides alone, and so does one that is not a front of `%!PS`
  by_cases short : first.length < 4
  · rw [take_postScript short, take_postScript short]
    by_cases front : first <+: postScript
    · simp [short, front]
    · simp [front]
  · rw [take_postScript_long (by omega), take_postScript_long (by omega)]
    simp [short]

theorem flags_markText (buf : Bytes) (req : PrintReq) :
    (markText buf req).flags = if buf.take 4 = postScript then req.flags else req.flags |||
    prText := by
  unfold markText postScript
  split <;> rfl

/-- A run classifies the document by its bytes just when the first piece settles the matter. -/
theorem classified_iff (receives : Receives ops socket header parts) :
    Classified (clientThread ops socket) header parts.flatten ↔ Settled ops header parts := by
  rw [clientThread_eq receives]
  cases parts with
  | nil => simp [Classified, Settled, markFirst, documentFlags]
  | cons first rest =>
    have nonempty : first ≠ [] := by
      obtain ⟨after, -, document⟩ := receives.reads
      exact ne_nil_of_mem_chunks (document.symm ▸ List.mem_cons_self : first ∈ after.document)
    have begins : postScript <+: first ++ rest.flatten ↔
        (first ++ rest.flatten).take 4 = postScript := by
      rw [List.prefix_iff_eq_take, eq_comm]
      rfl
    -- the comparison made is with the old buffer, the one called for is with the stream
    have settled : Settled ops header (first :: rest) ↔
        (decodeReq header).flags ||| prText = (decodeReq header).flags ∨
        ((first ++ ops.buf.drop first.length).take 4 = postScript ↔
          (first ++ rest.flatten).take 4 = postScript) := by
      rw [compare_iff]
      simp [Settled]
    rw [settled, Classified, markFirst, documentFlags, List.flatten_cons]
    simp only [begins, true_and, Option.map_some, Option.some.injEq, flags_markText, overlay]
    by_cases compared : (first ++ ops.buf.drop first.length).take 4 = postScript <;>
      by_cases true : (first ++ rest.flatten).take 4 = postScript <;> simp [compared, true,
        nonempty, eq_comm]

/-! ## Every cut of a stream -/

/-- The connection on which the header and then the pieces arrive. -/
def delivery (header : Bytes) (parts : List Bytes) : Socket :=
  ⟨header ++ parts.flatten, .bytes sizeofReq :: parts.map fun part => .bytes part.length⟩

theorem treadn_whole {n : Nat} (rest : Bytes) (arrivals : List Arrival) (nonempty : header ≠ [])
    (whole : header.length = n) :
    treadn ⟨header ++ rest, .bytes n :: arrivals⟩ n = (.ok header, ⟨rest, arrivals⟩) := by
  have reads : tread ⟨header ++ rest, .bytes n :: arrivals⟩ n = (.ok header, ⟨rest, arrivals⟩) := by
    simp [tread, ← whole]
  obtain ⟨m, rfl⟩ := Nat.exists_eq_add_one.2 (whole ▸ List.length_pos_of_ne_nil nonempty)
  rw [treadn, treadnLoop, if_neg (Nat.succ_ne_zero m), reads]
  simp [whole, treadnLoop]

theorem chunks_delivery {turns : Nat} (enough : parts.length < turns)
    (pieces : ∀ part ∈ parts, part ≠ [] ∧ part.length ≤ iobufsz) :
    chunks turns ⟨parts.flatten, parts.map fun part => .bytes part.length⟩ = parts := by
  induction parts generalizing turns with
  | nil =>
    obtain ⟨turns, rfl⟩ := Nat.exists_eq_add_one.2 enough
    rfl
  | cons part parts inductionHypothesis =>
    obtain ⟨turns, rfl⟩ := Nat.exists_eq_add_one.2 (Nat.lt_of_le_of_lt (Nat.zero_le _) enough)
    obtain ⟨nonempty, short⟩ := pieces part List.mem_cons_self
    have later := inductionHypothesis (show parts.length < turns by simpa using enough)
        fun part member =>
      pieces part (List.mem_cons_of_mem _ member)
    simp only [chunks, tread, List.map_cons, List.flatten_cons, Nat.min_eq_left short,
      List.take_left, List.drop_left, later,
      List.length_eq_zero_iff, nonempty, if_false]

/-- Whatever pieces the document is cut into, there is a run that receives them. -/
theorem receives_delivery (whole : header.length = sizeofReq)
    (pieces : ∀ part ∈ parts, part ≠ [] ∧ part.length ≤ iobufsz) (buf : Bytes) :
    Receives { noErrors with buf } (delivery header parts) header parts where
  reads := by
    refine ⟨⟨parts.flatten, parts.map fun part => .bytes part.length⟩, ?_, ?_⟩
    · exact treadn_whole _ _ (by rintro rfl; cases whole) whole
    · rw [Socket.document, chunks_delivery _ pieces]
      simp
  whole := whole
  creatData := rfl
  writes _ _ _ := rfl
  creatControl := rfl
  writeControl := rfl

/-! ## Two runs -/

/-- Two runs that receive the same request and the same bytes, in whatever pieces, store the same
document with the flags that its bytes call for if and only if in both of them the first piece
settles the matter. -/
theorem document_type_iff (first : Receives ops₁ socket₁ header parts₁)
    (second : Receives ops₂ socket₂ header parts₂)
    (same : parts₁.flatten = parts₂.flatten) :
    (Classified (clientThread ops₁ socket₁) header parts₁.flatten ∧
      Classified (clientThread ops₂ socket₂) header parts₁.flatten) ↔
      Settled ops₁ header parts₁ ∧ Settled ops₂ header parts₂ := by
  rw [classified_iff first, same, classified_iff second]

/-- A PostScript document of which the first read returns two bytes. -/
theorem document_type_depends : postScript <+: [[37, 33], [80, 83, 10]].flatten ∧
    [[37, 33], [80, 83, 10]].flatten = [[37, 33, 80, 83, 10]].flatten ∧
    ((clientThread { noErrors with buf := List.replicate iobufsz 0 }
      (delivery (List.replicate sizeofReq 0) [[37, 33], [80, 83, 10]])).control.map PrintReq.flags =
        some prText) ∧
    ((clientThread { noErrors with buf := List.replicate iobufsz 0 }
      (delivery (List.replicate sizeofReq 0) [[37, 33, 80, 83, 10]])).control.map PrintReq.flags =
        some 0) := by
  decide +kernel

/-- The thread with a buffer of zeros that receives a request and a document in these pieces. -/
def zeroBuffer (parts : List Bytes) : Spooled :=
  clientThread { noErrors with buf := List.replicate iobufsz 0 }
    (delivery (List.replicate sizeofReq 0) parts)

/-- A plain text that begins like PostScript is told from it by both runs, wherever its first bytes
are cut. -/
theorem document_type_iff_plain :
    Classified (zeroBuffer [[37, 33, 80], [65]]) (List.replicate sizeofReq 0) [37, 33, 80, 65] ∧
      Classified (zeroBuffer [[37], [33, 80, 65]]) (List.replicate sizeofReq 0)
        [37, 33, 80, 65] := by
  have receives (parts : List Bytes) (pieces : ∀ part ∈ parts, part ≠ [] ∧ part.length ≤ iobufsz) :=
    receives_delivery (List.length_replicate (n := sizeofReq) (a := 0)) pieces
      (List.replicate iobufsz 0)
  refine (document_type_iff (receives [[37, 33, 80], [65]] (by decide))
    (receives [[37], [33, 80, 65]] (by decide)) rfl).mpr ⟨?_, ?_⟩
  all_goals
    refine .inr fun first here _ _ => ?_
    obtain rfl := Option.some.inj here
    decide +kernel

end Apue.Printer
